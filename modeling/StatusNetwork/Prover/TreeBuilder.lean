import StatusNetwork.Prover.SparseMerkleTreeLaws
import StatusNetwork.Base.Control
import Mathlib.Tactic.Ring

/-!
# Building a whole tree at once

Models `NewTree` of `smt_koalabear`. It hashes the bottom of the tree in subtrees of a fixed
height, which tasks build in any order, and the levels above them one by one. What it builds is
the tree that updating the leaves one after the other builds.
-/

namespace StatusNetwork.Prover

open Merkle (node node_congr)

variable (compress : Compress)

def isPowerOfTwo (n : Nat) : Bool := n &&& (n - 1) = 0 ∧ n > 0

def log2Floor (a : Nat) : Nat :=
  if a > 1 then log2Floor (a / 2) + 1 else 0

def log2Ceil (a : Nat) : Nat :=
  let floor := log2Floor a
  if a ≠ 2 ^ floor then floor + 1 else floor

def hashInto (input : List KoalaOctuplet) (inputStart outputStart count : Nat)
    (out : List KoalaOctuplet) : Except Panic (List KoalaOctuplet) :=
  (List.range count).foldlM (fun out k =>
    match input[inputStart + 2 * k]?, input[inputStart + 2 * k + 1]? with
    | some left, some right =>
      if outputStart + k < out.length then
        .ok (out.set (outputStart + k) (hashLR compress left right))
      else .error .outOfBound
    | _, _ => .error .outOfBound) out

/-- The level that is hashed into the level `l` of `nodes`. -/
def inputLevel (leaves : List KoalaOctuplet) (nodes : List (List KoalaOctuplet)) (l : Nat) :
    Option (List KoalaOctuplet) :=
  if l = 0 then some leaves else nodes[l - 1]?

def hashLevel (leaves : List KoalaOctuplet) (l inputStart outputStart count : Nat)
    (nodes : List (List KoalaOctuplet)) : Except Panic (List (List KoalaOctuplet)) :=
  match inputLevel leaves nodes l, nodes[l]? with
  | some input, some out => do
    let out ← hashInto compress input inputStart outputStart count out
    .ok (nodes.set l out)
  | _, _ => .error .outOfBound

/-- The task `t`, which builds a subtree of height `subtreeHeight`. -/
def buildSubtree (leaves : List KoalaOctuplet) (subtreeHeight : Nat)
    (nodes : List (List KoalaOctuplet)) (t : Nat) : Except Panic (List (List KoalaOctuplet)) :=
  let chunkSize := 2 ^ subtreeHeight
  (List.range subtreeHeight).foldlM (fun nodes l =>
    hashLevel compress leaves l (t * (chunkSize / 2 ^ l)) (t * (chunkSize / 2 ^ (l + 1)))
      (chunkSize / 2 ^ (l + 1)) nodes) nodes

def buildUpper (leaves : List KoalaOctuplet) (nodes : List (List KoalaOctuplet)) (i : Nat) :
    Except Panic (List (List KoalaOctuplet)) :=
  hashLevel compress leaves i 0 0 (nodes.getD i []).length nodes

def targetSubtreeHeight : Nat := 10

def subtreeHeight (depth : Nat) : Nat := min targetSubtreeHeight (depth - 1)

def numTasks (numLeaves : Nat) : Nat := numLeaves / 2 ^ subtreeHeight (log2Ceil numLeaves)

/-- `NewTree`. `order` is the order in which the tasks run. -/
def newTree (order : List Nat) (leaves : List KoalaOctuplet) : Except Panic Tree :=
  let numLeaves := leaves.length
  if isPowerOfTwo numLeaves = false ∨ numLeaves = 0 then .error .notPowerOfTwo
  else
    let depth := log2Ceil numLeaves
    -- for a single leaf the slice of levels would have a negative length
    if depth = 0 then .error .outOfBound
    else do
      let emptyNodes := (emptyLevels compress (depth - 1) emptyLeaf).1
      let nodes := (List.range (depth - 1)).map fun i => List.replicate (numLeaves / 2 / 2 ^ i) 0
      let nodes ← order.foldlM (buildSubtree compress leaves (subtreeHeight depth)) nodes
      let nodes ← (List.range (depth - 1 - subtreeHeight depth)).foldlM
        (fun nodes i => buildUpper compress leaves nodes (subtreeHeight depth + i)) nodes
      let lastLevel := if depth = 1 then leaves else nodes.getD (depth - 2) []
      match lastLevel with
      | [left, right] =>
        .ok { depth, root := hashLR compress left right, occupiedLeaves := leaves,
              occupiedNodes := nodes, emptyNodes }
      | _ => .error .outOfBound

-- One level

variable {compress : Compress} {leaf : Nat → KoalaOctuplet} {done : Nat → Nat → Prop}
  {d l count t : Nat}

variable (compress) in
/-- The loop over the pairs of a level writes the parents of the pairs it covers. -/
theorem hashInto_spec {f : Nat → KoalaOctuplet}
    (hin : ∀ j, 2 * o ≤ j → j < 2 * (o + count) → input[j]? = some (f j))
    (hout : o + count ≤ out.length) :
    ∃ out', hashInto compress input (2 * o) o count out = .ok out' ∧ out'.length = out.length ∧
      (∀ j, o ≤ j → j < o + count → out'[j]? = some (hashLR compress (f (2 * j)) (f (2 * j + 1)))) ∧
      ∀ j, ¬ (o ≤ j ∧ j < o + count) → out'[j]? = out[j]? := by
  refine Except.foldlM_range_succeeds (fun k (out' : List KoalaOctuplet) =>
      out'.length = out.length ∧
      (∀ j, o ≤ j → j < o + k → out'[j]? = some (hashLR compress (f (2 * j)) (f (2 * j + 1)))) ∧
      ∀ j, ¬ (o ≤ j ∧ j < o + k) → out'[j]? = out[j]?) ⟨rfl, by intros; omega, by simp⟩ ?_
  rintro k out' hk ⟨hlen, hnew, hold⟩
  have hleft := hin (2 * (o + k)) (by omega) (by omega)
  have hright := hin (2 * (o + k) + 1) (by omega) (by omega)
  have hroom : o + k < out'.length := by omega
  rw [Nat.mul_add] at hleft hright
  simp only [hleft, hright, hroom, if_true]
  refine ⟨_, rfl, by simpa using hlen, ?_, ?_⟩
  · intro j hj hjk
    rw [List.getElem?_set]
    split
    · subst j
      simp [Nat.mul_add]
    · exact hnew j hj (by omega)
  · intro j hj
    rw [List.getElem?_set_ne (by omega)]
    exact hold j (by omega)

/-- Every level has its full size, and its entries in `done` are the nodes over `leaf`. -/
structure Filled (compress : Compress) (leaf : Nat → KoalaOctuplet) (d : Nat)
    (done : Nat → Nat → Prop) (nodes : List (List KoalaOctuplet)) : Prop where
  levels : nodes.length = d - 1
  size : ∀ l row, nodes[l]? = some row → row.length = 2 ^ (d - 1 - l)
  entries : ∀ l row j, nodes[l]? = some row → j < row.length → done l j →
    row[j]? = some (node (hashLR compress) leaf (l + 1) j)

theorem Filled.mono (h : Filled compress leaf d done nodes)
    (hd : ∀ l j, l < d - 1 → j < 2 ^ (d - 1 - l) → done' l j → done l j) :
    Filled compress leaf d done' nodes := by
  refine ⟨h.levels, h.size, fun l row j hrow hj hdone => h.entries l row j hrow hj ?_⟩
  have hl : l < nodes.length := (List.getElem?_eq_some_iff.mp hrow).1
  exact hd l j (h.levels ▸ hl) (h.size l row hrow ▸ hj) hdone

theorem hashLevel_spec (hleaves : ∀ j < 2 ^ d, leaves[j]? = some (leaf j))
    (h : Filled compress leaf d done nodes) (hl : l < d - 1) (hcount : o + count ≤ 2 ^ (d - 1 - l))
    (hbelow : ∀ l', l = l' + 1 → ∀ j, 2 * o ≤ j → j < 2 * (o + count) → done l' j) :
    ∃ nodes', hashLevel compress leaves l (2 * o) o count nodes = .ok nodes' ∧
      Filled compress leaf d (fun l' j => done l' j ∨ l' = l ∧ o ≤ j ∧ j < o + count) nodes' := by
  have hln : l < nodes.length := h.levels ▸ hl
  obtain ⟨out, hout⟩ : ∃ out, nodes[l]? = some out := ⟨nodes[l], List.getElem?_eq_getElem hln⟩
  have hpow : 2 * 2 ^ (d - 1 - l) = 2 ^ (d - l) := by
    rw [← Nat.pow_succ']
    congr 1
    omega
  obtain ⟨input, hinput, hin⟩ : ∃ input, inputLevel leaves nodes l = some input ∧
      ∀ j, 2 * o ≤ j → j < 2 * (o + count) →
        input[j]? = some (node (hashLR compress) leaf l j) := by
    cases l with
    | zero => exact ⟨leaves, rfl, fun j _ hj => hleaves j (by simp only [Nat.sub_zero] at *; omega)⟩
    | succ l' =>
      have hl' : l' < nodes.length := by omega
      refine ⟨nodes[l'], by simp [inputLevel, hl'], fun j ho hj => ?_⟩
      have hrow := List.getElem?_eq_getElem hl'
      refine h.entries l' _ j hrow ?_ (hbelow l' rfl j ho hj)
      rw [h.size l' _ hrow, Nat.sub_sub, Nat.add_comm 1 l']
      omega
  obtain ⟨out', hhash, hlen, hnew, hold⟩ := hashInto_spec compress hin (h.size l out hout ▸ hcount)
  refine ⟨nodes.set l out', by simp [hashLevel, hinput, hout, hhash], by simpa using h.levels, ?_,
    ?_⟩
  · intro l' row hrow
    rw [List.getElem?_set] at hrow
    split at hrow
    · subst l'
      simp only [Option.some.injEq] at hrow
      rw [← hrow, hlen, h.size l out hout]
    · exact h.size l' row hrow
  · intro l' row j hrow hj hdone
    rw [List.getElem?_set] at hrow
    split at hrow
    · subst l'
      simp only [Option.some.injEq] at hrow
      subst row
      by_cases hnow : o ≤ j ∧ j < o + count
      · exact hnew j hnow.1 hnow.2
      · rw [hold j hnow]
        exact h.entries l out j hout (hlen ▸ hj) (hdone.resolve_right (by tauto))
    · rename_i hne
      exact h.entries l' row j hrow hj (hdone.resolve_right fun h => hne h.1.symm)

-- The tasks and the upper levels

theorem pow_div_pow (h : l ≤ k) : 2 ^ k / 2 ^ l = 2 ^ (k - l) := Nat.pow_div h (by decide)

section
variable {leaves : List KoalaOctuplet} (hleaves : ∀ j < 2 ^ d, leaves[j]? = some (leaf j))
  (hh : h ≤ d - 1)
include hleaves hh

theorem buildSubtree_spec (ht : t < 2 ^ (d - h)) (hf : Filled compress leaf d done nodes) :
    ∃ nodes', buildSubtree compress leaves h nodes t = .ok nodes' ∧
      Filled compress leaf d (fun l j => done l j ∨ l < h ∧ j / 2 ^ (h - 1 - l) = t) nodes' := by
  refine Except.foldlM_range_succeeds
    (fun k => Filled compress leaf d fun l j => done l j ∨ l < k ∧ j / 2 ^ (h - 1 - l) = t)
    (hf.mono fun l j _ _ h => h.resolve_right (by simp)) ?_
  intro l nodes hl hf
  have hwidth : 2 ^ h / 2 ^ l = 2 * 2 ^ (h - 1 - l) := by
    rw [pow_div_pow hl.le, ← Nat.pow_succ']
    congr 1
    omega
  have hnext : 2 ^ h / 2 ^ (l + 1) = 2 ^ (h - 1 - l) := by
    rw [pow_div_pow hl]
    congr 1
    omega
  have hpos : 0 < 2 ^ (h - 1 - l) := Nat.two_pow_pos _
  have hin : t * (2 * 2 ^ (h - 1 - l)) = 2 * (t * 2 ^ (h - 1 - l)) := by ring
  have hmine : ∀ j, j / 2 ^ (h - 1 - l) = t ↔
      t * 2 ^ (h - 1 - l) ≤ j ∧ j < t * 2 ^ (h - 1 - l) + 2 ^ (h - 1 - l) := by
    intro j
    rw [Nat.div_eq_iff hpos]
    omega
  have hroom : t * 2 ^ (h - 1 - l) + 2 ^ (h - 1 - l) ≤ 2 ^ (d - 1 - l) := by
    calc t * 2 ^ (h - 1 - l) + 2 ^ (h - 1 - l) = (t + 1) * 2 ^ (h - 1 - l) := by ring
      _ ≤ 2 ^ (d - h) * 2 ^ (h - 1 - l) := Nat.mul_le_mul_right _ ht
      _ = 2 ^ (d - 1 - l) := by
        rw [← Nat.pow_add]
        congr 1
        omega
  have hbelow : ∀ l', l = l' + 1 → ∀ j, 2 * (t * 2 ^ (h - 1 - l)) ≤ j →
      j < 2 * (t * 2 ^ (h - 1 - l) + 2 ^ (h - 1 - l)) →
      done l' j ∨ l' < l ∧ j / 2 ^ (h - 1 - l') = t := by
    rintro l' rfl j hj hj'
    have hw : 2 ^ (h - 1 - l') = 2 * 2 ^ (h - 1 - (l' + 1)) := by
      rw [← Nat.pow_succ']
      congr 1
      omega
    refine .inr ⟨Nat.lt_succ_self _, ?_⟩
    rw [hw, Nat.div_eq_iff (by omega)]
    omega
  obtain ⟨nodes', hrun, hf'⟩ := hashLevel_spec hleaves hf (by omega) hroom hbelow
  simp only [hwidth, hnext, hin]
  refine ⟨nodes', hrun, hf'.mono fun l' j _ _ hd => ?_⟩
  rcases hd with hd | ⟨hlt, hd⟩
  · exact .inl (.inl hd)
  · rcases Nat.lt_succ_iff_lt_or_eq.mp hlt with hlt | rfl
    · exact .inl (.inr ⟨hlt, hd⟩)
    · exact .inr ⟨rfl, (hmine j).mp hd⟩

/-- The tasks fill every level below the height of the subtrees, in whatever order they run. -/
theorem subtrees_spec {order : List Nat} (hd : 0 < d)
    (horder : order.Perm (List.range (2 ^ (d - h))))
    (hf : Filled compress leaf d (fun _ _ => False) nodes) :
    ∃ nodes', order.foldlM (buildSubtree compress leaves h) nodes = .ok nodes' ∧
      Filled compress leaf d (fun l _ => l < h) nodes' := by
  obtain ⟨nodes', hrun, hf'⟩ := Except.foldlM_succeeds
    (fun ran => Filled compress leaf d fun l j => l < h ∧ j / 2 ^ (h - 1 - l) ∈ ran)
    (hf.mono fun _ _ _ _ h => by simp at h) fun ran t nodes ht hf => by
      have ht' : t < 2 ^ (d - h) := by simpa using horder.subset ht
      obtain ⟨nodes', hrun, hf'⟩ := buildSubtree_spec hleaves hh ht' hf
      refine ⟨nodes', hrun, hf'.mono fun l j _ _ hmem => ?_⟩
      simpa [and_or_left] using hmem
  refine ⟨nodes', hrun, hf'.mono fun l j hl hj hlt => ⟨hlt, horder.mem_iff.mpr ?_⟩⟩
  rw [List.mem_range, Nat.div_lt_iff_lt_mul (Nat.two_pow_pos _), ← Nat.pow_add]
  convert hj using 2
  omega

theorem upper_spec (hf : Filled compress leaf d (fun l _ => l < h) nodes) :
    ∃ nodes', (List.range (d - 1 - h)).foldlM
        (fun nodes i => buildUpper compress leaves nodes (h + i)) nodes = .ok nodes' ∧
      Filled compress leaf d (fun _ _ => True) nodes' := by
  obtain ⟨nodes', hrun, hf'⟩ := Except.foldlM_range_succeeds (n := d - 1 - h)
    (f := fun nodes i => buildUpper compress leaves nodes (h + i))
    (fun k => Filled compress leaf d fun l _ => l < h + k) hf fun k nodes hk hf => by
      have hl : h + k < nodes.length := by
        have := hf.levels
        omega
      have hsize : (nodes.getD (h + k) []).length = 2 ^ (d - 1 - (h + k)) := by
        rw [List.getD_eq_getElem?_getD, List.getElem?_eq_getElem hl]
        exact hf.size _ _ (List.getElem?_eq_getElem hl)
      obtain ⟨nodes', hrun, hf'⟩ := hashLevel_spec hleaves hf (by omega)
        (Nat.zero_add (2 ^ (d - 1 - (h + k)))).le (fun l' _ j _ _ => by omega)
      refine ⟨nodes', by rw [buildUpper, hsize]; exact hrun, hf'.mono fun l j _ hj hlt => ?_⟩
      rcases Nat.lt_succ_iff_lt_or_eq.mp hlt with hlt | rfl
      · exact .inl hlt
      · exact .inr ⟨rfl, Nat.zero_le _, by simpa using hj⟩
  exact ⟨nodes', hrun, hf'.mono fun l j hl _ _ => by omega⟩

end

-- The whole tree

theorem isPowerOfTwo_pow (d : Nat) : isPowerOfTwo (2 ^ d) = true := by
  have hand : 2 ^ d &&& (2 ^ d - 1) = 0 := by
    rw [Nat.and_two_pow_sub_one_eq_mod, Nat.mod_self]
  simp [isPowerOfTwo, hand]

theorem log2Floor_pow (d : Nat) : log2Floor (2 ^ d) = d := by
  induction d with
  | zero => simp [log2Floor]
  | succ d ih =>
    have hlt : 2 ^ (d + 1) > 1 := Nat.one_lt_two_pow (Nat.succ_ne_zero d)
    rw [log2Floor, if_pos hlt, Nat.pow_succ, Nat.mul_div_cancel _ (by decide), ih]

theorem log2Ceil_pow (d : Nat) : log2Ceil (2 ^ d) = d := by
  simp [log2Ceil, log2Floor_pow]

/-- The leaf at each position, empty beyond the list. -/
def leafOf (leaves : List KoalaOctuplet) (i : Nat) : KoalaOctuplet := leaves.getD i emptyLeaf

theorem leafOf_some (h : i < leaves.length) : leaves[i]? = some (leafOf leaves i) := by
  simp [leafOf, h]

theorem leafOf_none (h : leaves.length ≤ i) : leafOf leaves i = emptyLeaf := by
  simp [leafOf, h]

theorem Filled.represents (hd : 0 < d) (hlt : d < 63) (hlen : leaves.length = 2 ^ d)
    (hf : Filled compress (leafOf leaves) d (fun _ _ => True) nodes) :
    Tree.Represents compress
      { depth := d, root := node (hashLR compress) (leafOf leaves) d 0, occupiedLeaves := leaves,
        occupiedNodes := nodes, emptyNodes := (emptyLevels compress (d - 1) emptyLeaf).1 }
      (leafOf leaves) := by
  have hempty := ((newEmptyTree_spec compress hd hlt).2.shape).empties
  refine ⟨⟨hd, hlt, hf.levels, hempty⟩, ?_, rfl⟩
  intro l hl
  cases l with
  | zero => exact ⟨hlen.le, fun j => rfl⟩
  | succ l =>
    replace hl : l + 1 < d := hl
    have hln : l < nodes.length := by
      rw [hf.levels]
      omega
    have hrow := List.getElem?_eq_getElem hln
    have hsize := hf.size l _ hrow
    refine ⟨nodes[l], hrow, by rw [hsize, Nat.sub_sub, Nat.add_comm 1], fun j => ?_⟩
    rw [List.getD_eq_getElem?_getD]
    by_cases hj : j < nodes[l].length
    · rw [hf.entries l _ j hrow hj trivial]
      rfl
    · rw [List.getElem?_eq_none (not_lt.mp hj)]
      have hbeyond : leaves.length ≤ j * 2 ^ (l + 1) := by
        rw [not_lt, hsize] at hj
        calc leaves.length = 2 ^ (d - 1 - l) * 2 ^ (l + 1) := by
              rw [hlen, ← Nat.pow_add]
              congr 1
              omega
          _ ≤ j * 2 ^ (l + 1) := Nat.mul_le_mul_right _ hj
      have hnode := node_congr (hashLR compress) (l + 1) j fun i hi =>
        leafOf_none (hbeyond.trans hi)
      rw [hnode]
      exact (node_const _ _ _ _).symm

theorem Filled.lastLevel (hd : 0 < d) (hlen : leaves.length = 2 ^ d)
    (hf : Filled compress (leafOf leaves) d (fun _ _ => True) nodes) :
    (if d = 1 then leaves else nodes.getD (d - 2) []) =
      [node (hashLR compress) (leafOf leaves) (d - 1) 0,
        node (hashLR compress) (leafOf leaves) (d - 1) 1] := by
  apply List.ext_getElem?
  obtain ⟨d, rfl⟩ := Nat.exists_eq_succ_of_ne_zero hd.ne'
  cases d with
  | zero =>
    intro i
    rcases i with _ | _ | i
    · exact leafOf_some (by simp [hlen])
    · exact leafOf_some (by simp [hlen])
    · simp [hlen]
  | succ d =>
    have hln : d < nodes.length := by simp [hf.levels]
    have hrow := List.getElem?_eq_getElem hln
    have hsize : nodes[d].length = 2 := by simpa using hf.size d _ hrow
    intro i
    have hget : (if d + 1 + 1 = 1 then leaves else nodes.getD (d + 1 + 1 - 2) []) = nodes[d] := by
      simp [List.getD_eq_getElem?_getD, hrow]
    rw [hget]
    rcases i with _ | _ | i
    · exact hf.entries d _ 0 hrow (by omega) trivial
    · exact hf.entries d _ 1 hrow (by omega) trivial
    · simp [hsize]

variable (compress) in
theorem newTree_spec (hd : 0 < d) (hlt : d < 63) (hlen : leaves.length = 2 ^ d)
    (horder : order.Perm (List.range (numTasks leaves.length))) :
    ∃ t, newTree compress order leaves = .ok t ∧ t.depth = d ∧
      t.Represents compress (leafOf leaves) := by
  have hh : subtreeHeight d ≤ d - 1 := Nat.min_le_right _ _
  have hleaves : ∀ j < 2 ^ d, leaves[j]? = some (leafOf leaves j) :=
    fun j hj => leafOf_some (hlen ▸ hj)
  have hinit : Filled compress (leafOf leaves) d (fun _ _ => False)
      ((List.range (d - 1)).map fun i => List.replicate (2 ^ d / 2 / 2 ^ i) 0) := by
    refine ⟨by simp, fun l row hrow => ?_, fun _ _ _ _ _ h => h.elim⟩
    obtain ⟨hl, rfl⟩ := List.getElem?_eq_some_iff.mp hrow
    simp only [List.length_map, List.length_range] at hl
    simp only [List.getElem_map, List.getElem_range, List.length_replicate]
    rw [Nat.div_div_eq_div_mul, ← Nat.pow_succ', pow_div_pow (by omega)]
    congr 1
    omega
  rw [hlen, numTasks, log2Ceil_pow, pow_div_pow (by omega)] at horder
  obtain ⟨low, hlow, hlowf⟩ := subtrees_spec hleaves hh hd horder hinit
  obtain ⟨nodes, hup, hf⟩ := upper_spec hleaves hh hlowf
  refine ⟨_, ?_, ?_, hf.represents hd hlt hlen⟩
  · have hpos : 2 ^ d ≠ 0 := (Nat.two_pow_pos d).ne'
    have hroot : node (hashLR compress) (leafOf leaves) d 0 =
        hashLR compress (node (hashLR compress) (leafOf leaves) (d - 1) 0)
          (node (hashLR compress) (leafOf leaves) (d - 1) 1) := by
      obtain ⟨d, rfl⟩ := Nat.exists_eq_succ_of_ne_zero hd.ne'
      rfl
    simp only [newTree, hlen, isPowerOfTwo_pow, log2Ceil_pow, hd.ne', hpos, if_false, hlow, hup,
      ok_bind, hf.lastLevel hd hlen, hroot, reduceCtorEq, or_self]
  · rfl

-- Updating leaf by leaf

def Tree.updateAll (compress : Compress) (t : Tree) (updates : List (Nat × KoalaOctuplet)) :
    Except Panic Tree :=
  updates.foldlM (fun t u => t.update compress u.1 u.2) t

/-- The last value written at each position, the empty leaf elsewhere. -/
def written (updates : List (Nat × KoalaOctuplet)) : Nat → KoalaOctuplet :=
  updates.foldl (fun leaf u => Function.update leaf u.1 u.2) fun _ => emptyLeaf

theorem updateAll_spec (hz : NeverZero compress) (hd : 0 < d) (hlt : d < 63)
    (hpos : ∀ u ∈ updates, u.1 < 2 ^ d) :
    ∃ t, (newEmptyTree compress d).updateAll compress updates = .ok t ∧ t.depth = d ∧
      t.Represents compress (written updates) := by
  refine Except.foldlM_succeeds
    (fun past (t : Tree) => t.depth = d ∧ t.Represents compress (written past))
    (newEmptyTree_spec compress hd hlt) ?_
  rintro past u t hu ⟨hdepth, hr⟩
  obtain ⟨t', hrun, hdepth', hr'⟩ := Tree.update_spec hz hr (hdepth ▸ hpos u hu)
  refine ⟨t', hrun, hdepth'.trans hdepth, ?_⟩
  simpa [written] using hr'

theorem written_range (leaves : List KoalaOctuplet) :
    written ((List.range leaves.length).map fun i => (i, leafOf leaves i)) = leafOf leaves := by
  have hupto : ∀ n, written ((List.range n).map fun i => (i, leafOf leaves i)) =
      fun i => if i < n then leafOf leaves i else emptyLeaf := by
    intro n
    induction n with
    | zero => rfl
    | succ n ih =>
      simp only [written] at ih
      simp only [written, List.range_succ, List.map_append, List.foldl_append, ih]
      funext i
      rcases Nat.lt_trichotomy i n with h | rfl | h
      · simp [h.ne, h, Nat.lt_succ_of_lt h]
      · simp
      · simp [h.ne', h.not_gt, show ¬ i < n + 1 by omega]
  funext i
  simp only [hupto]
  split
  · rfl
  · exact (leafOf_none (by omega)).symm

theorem Tree.Represents.getNode_eq {t : Tree} (hz : NeverZero compress)
    (hr : t.Represents compress leaf) (hl : l ≤ t.depth) (hp : pos < 2 ^ (t.depth - l)) :
    t.getNode l pos = .ok (node (hashLR compress) leaf l pos) := by
  have hne : ∀ l j, l ≠ 0 → node (hashLR compress) leaf l j ≠ 0 := by
    intro l j hl
    obtain ⟨k, rfl⟩ := Nat.exists_eq_succ_of_ne_zero hl
    exact hashLR_ne_zero hz _ _
  rcases hl.lt_or_eq with hl | rfl
  · exact getNode_spec hr.shape hl hp (hr.stores l hl) (hne l pos)
  · obtain rfl : pos = 0 := by simpa using hp
    simp [getNode, hr.root, hne t.depth 0 hr.shape.depth_pos.ne']

/-- A proof of the tree is accepted with its leaf, and only with it where hashes do not collide. -/
theorem Tree.Represents.proof_iff {t : Tree} (hz : NeverZero compress)
    (hr : t.Represents compress leaf) (hp : pos < 2 ^ t.depth) :
    ∃ p, t.mustProve pos = .ok p ∧ verify compress p (leaf pos) t.root = .ok true ∧
      ∀ x, Set.InjOn (Function.uncurry (hashLR compress))
          (Merkle.treePairs (hashLR compress) leaf t.depth ∪
            {q | q ∈ Merkle.foldPairs (hashLR compress) x pos p.siblings}) →
        verify compress p x t.root = .ok true → x = leaf pos := by
  have hpath : (Int64.ofNat pos).toInt = pos := Int64.toInt_ofNat_of_lt <|
    hp.trans (Nat.pow_lt_pow_right (by decide) hr.shape.depth_lt)
  have hlen := Merkle.length_siblings (hashLR compress) leaf t.depth 0 pos
  refine ⟨_, mustProve_spec hz hr hp, ?_, ?_⟩
  · rw [verify_ok, recoverRoot_ok]
    refine ⟨pos, hpath, by rwa [hlen], ?_⟩
    have hfold := Merkle.fold_siblings (hashLR compress) leaf t.depth 0 pos
    rwa [Nat.zero_add, Nat.div_eq_of_lt hp, ← hr.root] at hfold
  · intro x hinj hx
    rw [verify_ok, recoverRoot_ok] at hx
    obtain ⟨i, hi, hlt, hfold⟩ := hx
    obtain rfl : i = pos := by exact_mod_cast hi.symm.trans hpath
    have hsound := Merkle.fold_sound (hashLR compress) hinj Set.subset_union_left hlen.le hlt
      (fun q hq => .inr hq) (hfold.trans hr.root)
    rw [hlen, Nat.sub_self] at hsound
    exact hsound.1

/-- The sparse tree is the full binary tree over the leaves last written, its proofs are accepted
with the leaf they are for and no other, and `newTree` builds the same tree. -/
theorem sparseMerkleTree_correct (hz : NeverZero compress) (hd : 0 < d) (hlt : d < 63) :
    (∀ updates : List (Nat × KoalaOctuplet), (∀ u ∈ updates, u.1 < 2 ^ d) →
      ∃ t, (newEmptyTree compress d).updateAll compress updates = .ok t ∧
        t.root = node (hashLR compress) (written updates) d 0 ∧
        ∀ pos < 2 ^ d, t.getLeaf pos = .ok (written updates pos) ∧
          ∃ p, t.mustProve pos = .ok p ∧
            verify compress p (written updates pos) t.root = .ok true ∧
            ∀ x, Set.InjOn (Function.uncurry (hashLR compress))
                (Merkle.treePairs (hashLR compress) (written updates) d ∪
                  {q | q ∈ Merkle.foldPairs (hashLR compress) x pos p.siblings}) →
              verify compress p x t.root = .ok true → x = written updates pos) ∧
    ∀ (leaves : List KoalaOctuplet) (order : List Nat), leaves.length = 2 ^ d →
      order.Perm (List.range (numTasks leaves.length)) →
      ∃ t t', newTree compress order leaves = .ok t ∧
        (newEmptyTree compress d).updateAll compress
          ((List.range leaves.length).map fun i => (i, leafOf leaves i)) = .ok t' ∧
        t.root = t'.root ∧
        (∀ level ≤ d, ∀ pos < 2 ^ (d - level),
          ∃ x, t.getNode level pos = .ok x ∧ t'.getNode level pos = .ok x) ∧
        ∀ pos < 2 ^ d, ∃ p, t.mustProve pos = .ok p ∧ t'.mustProve pos = .ok p := by
  refine ⟨fun updates hpos => ?_, fun leaves order hlen horder => ?_⟩
  · obtain ⟨t, hrun, rfl, hr⟩ := updateAll_spec hz hd hlt hpos
    refine ⟨t, hrun, hr.root, fun pos hp => ⟨?_, hr.proof_iff hz hp⟩⟩
    simp only [Tree.getLeaf, not_ge_oneShl hlt hp, if_false, (hr.stores 0 hd).2]
    rfl
  · obtain ⟨t, hrun, ht, hr⟩ := newTree_spec compress hd hlt hlen horder
    have hpos : ∀ u ∈ (List.range leaves.length).map fun i => (i, leafOf leaves i),
        u.1 < 2 ^ d := by simp [hlen]
    obtain ⟨t', hrun', ht', hr'⟩ := updateAll_spec hz hd hlt hpos
    rw [written_range] at hr'
    refine ⟨t, t', hrun, hrun', by rw [hr.root, hr'.root, ht, ht'], fun level hl pos hp => ?_,
      fun pos hp => ?_⟩
    · exact ⟨_, hr.getNode_eq hz (ht ▸ hl) (ht ▸ hp), hr'.getNode_eq hz (ht' ▸ hl) (ht' ▸ hp)⟩
    · refine ⟨_, Tree.mustProve_spec hz hr (ht ▸ hp), ?_⟩
      rw [Tree.mustProve_spec hz hr' (ht' ▸ hp), ht, ht']

/-- Four leaves, built by two tasks of which the second runs first. -/
theorem sparseMerkleTree_correct_four_leaves :
    ∃ t t', newTree toyCompress [1, 0] [0, 0, emptyNode toyCompress 1, 0] = .ok t ∧
      (newEmptyTree toyCompress 2).updateAll toyCompress
        [(0, 0), (1, 0), (2, emptyNode toyCompress 1), (3, 0)] = .ok t' ∧ t.root = t'.root := by
  have htasks : numTasks 4 = 2 := by
    rw [numTasks, show 4 = 2 ^ 2 from rfl, log2Ceil_pow]
    rfl
  obtain ⟨t, t', hnew, hupd, hroot, -⟩ :=
    (sparseMerkleTree_correct toyCompress_neverZero (d := 2) (by decide) (by decide)).2
      [0, 0, emptyNode toyCompress 1, 0] [1, 0] rfl (by
        rw [show [0, 0, emptyNode toyCompress 1, 0].length = 4 from rfl, htasks]
        decide)
  exact ⟨t, t', hnew, hupd, hroot⟩

/-- `1<<63` is negative, so in a tree of that depth no position can be written. -/
theorem update_fails_at_depth_63 :
    (newEmptyTree toyCompress 63).updateAll toyCompress [(0, emptyLeaf)] = .error .outOfBound := by
  rfl

end StatusNetwork.Prover
