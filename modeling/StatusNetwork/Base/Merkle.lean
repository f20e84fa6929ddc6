import Mathlib.Algebra.Ring.Nat
import Mathlib.Data.Set.Function
import Mathlib.Tactic.Common

/-!
# Full binary hash trees

A tree is a function from leaf positions to digests; `node` hashes it upward.
`fold` is the upward walk of an authentication path. The walk over the real
siblings computes the ancestors (`fold_siblings`), also after the leaf at its
foot was overwritten (`node_update_path`). Conversely, if the node hash does
not collide on the pairs hashed by the tree and by the walk, a walk that ends
in an ancestor started from the tree's own node (`fold_sound`); a walk longer
than the tree passes through a leaf that is itself a hash (`fold_deep`).
-/

namespace Merkle

open Function (uncurry update)

variable {D : Type u} (hn : D → D → D)

/-- The node of height `l` at position `i` of the tree over `leaf`. -/
def node (leaf : Nat → D) : Nat → Nat → D
  | 0, i => leaf i
  | l + 1, i => hn (node leaf l (2 * i)) (node leaf l (2 * i + 1))

def combine (i : Nat) (current sibling : D) : D :=
  if i % 2 = 1 then hn sibling current else hn current sibling

/-- The walk of an authentication path, from the bottom up. -/
def fold : D → Nat → List D → D
  | current, _, [] => current
  | current, i, s :: rest => fold (combine hn i current s) (i / 2) rest

def children (i : Nat) (current sibling : D) : D × D :=
  if i % 2 = 1 then (sibling, current) else (current, sibling)

def foldPairs : D → Nat → List D → List (D × D)
  | _, _, [] => []
  | current, i, s :: rest =>
    children i current s :: foldPairs (combine hn i current s) (i / 2) rest

/-- Siblings met on the way up through `d` levels from `(l, i)`. -/
def siblings (leaf : Nat → D) : Nat → Nat → Nat → List D
  | 0, _, _ => []
  | d + 1, l, i => node hn leaf l (i ^^^ 1) :: siblings leaf d (l + 1) (i / 2)

def treePairs (leaf : Nat → D) (d : Nat) : Set (D × D) :=
  { q | ∃ l j, l < d ∧ j < 2 ^ (d - l - 1) ∧
    q = (node hn leaf l (2 * j), node hn leaf l (2 * j + 1)) }

theorem xor_one_even (j : Nat) : (2 * j) ^^^ 1 = 2 * j + 1 := by
  apply Nat.eq_of_testBit_eq
  intro k
  cases k with
  | zero => simp
  | succ k =>
    rw [Nat.testBit_succ, Nat.testBit_succ, Nat.xor_div_two, show 2 * j / 2 = j by omega,
      show (2 * j + 1) / 2 = j by omega, Nat.xor_zero]

theorem xor_one_odd (j : Nat) : (2 * j + 1) ^^^ 1 = 2 * j := by
  rw [← xor_one_even, Nat.xor_assoc, Nat.xor_self, Nat.xor_zero]

theorem parity_cases (i : Nat) : i = 2 * (i / 2) ∨ i = 2 * (i / 2) + 1 := by omega

theorem xor_one_ne (i : Nat) : i ^^^ 1 ≠ i := by
  rcases parity_cases i with h | h
  · rw [h, xor_one_even]; omega
  · rw [h, xor_one_odd]; omega

theorem xor_one_lt (h : i < 2 * n) : i ^^^ 1 < 2 * n := by
  rcases parity_cases i with hi | hi
  · rw [hi, xor_one_even]; omega
  · rw [hi, xor_one_odd]; omega

theorem length_siblings (leaf : Nat → D) (d l i : Nat) : (siblings hn leaf d l i).length = d := by
  induction d generalizing l i with
  | zero => rfl
  | succ d ih => simp [siblings, ih]

theorem uncurry_children (i : Nat) (current sibling : D) :
    uncurry hn (children i current sibling) = combine hn i current sibling := by
  unfold children combine
  split <;> rfl

theorem children_injective (h : children i a s = children i b r) : a = b ∧ s = r := by
  unfold children at h
  split at h
  · exact ⟨congrArg Prod.snd h, congrArg Prod.fst h⟩
  · exact ⟨congrArg Prod.fst h, congrArg Prod.snd h⟩

theorem fold_append (x : D) (i : Nat) (ss rest : List D) :
    fold hn x i (ss ++ rest) = fold hn (fold hn x i ss) (i / 2 ^ ss.length) rest := by
  induction ss generalizing x i with
  | nil => simp [fold]
  | cons s ss ih =>
    simp only [List.cons_append, fold, ih, List.length_cons]
    rw [Nat.div_div_eq_div_mul, Nat.pow_succ']

theorem foldPairs_append (x : D) (i : Nat) (ss rest : List D) :
    foldPairs hn x i (ss ++ rest) =
      foldPairs hn x i ss ++ foldPairs hn (fold hn x i ss) (i / 2 ^ ss.length) rest := by
  induction ss generalizing x i with
  | nil => simp [foldPairs, fold]
  | cons s ss ih =>
    simp only [List.cons_append, foldPairs, fold, ih, List.length_cons]
    rw [Nat.div_div_eq_div_mul, Nat.pow_succ']

theorem node_congr (l j : Nat) (h : ∀ i, j * 2 ^ l ≤ i → leaf i = leaf' i) :
    node hn leaf l j = node hn leaf' l j := by
  induction l generalizing j with
  | zero => exact h j (by simp)
  | succ l ih =>
    have hleft : 2 * j * 2 ^ l = j * 2 ^ (l + 1) := by
      rw [Nat.pow_succ', Nat.mul_comm 2 j, Nat.mul_assoc]
    have hright : j * 2 ^ (l + 1) ≤ (2 * j + 1) * 2 ^ l := by
      rw [Nat.add_mul, hleft]
      exact Nat.le_add_right _ _
    rw [node, node, ih (2 * j) fun i hi => h i (hleft ▸ hi),
      ih (2 * j + 1) fun i hi => h i (hright.trans hi)]

section
variable (leaf : Nat → D)
include leaf

theorem children_node (l i : Nat) :
    children i (node hn leaf l i) (node hn leaf l (i ^^^ 1)) =
      (node hn leaf l (2 * (i / 2)), node hn leaf l (2 * (i / 2) + 1)) := by
  rcases parity_cases i with h | h
  · have hp : i % 2 ≠ 1 := by omega
    rw [children, if_neg hp]
    nth_rewrite 2 [h]
    rw [xor_one_even, ← h]
  · have hp : i % 2 = 1 := by omega
    have he : i ^^^ 1 = 2 * (i / 2) := by rw [h, xor_one_odd]; omega
    rw [children, if_pos hp, he, ← h]

theorem combine_node (l i : Nat) :
    combine hn i (node hn leaf l i) (node hn leaf l (i ^^^ 1)) = node hn leaf (l + 1) (i / 2) := by
  rw [← uncurry_children, children_node]
  rfl

theorem fold_siblings (d l i : Nat) :
    fold hn (node hn leaf l i) i (siblings hn leaf d l i) = node hn leaf (l + d) (i / 2 ^ d) := by
  induction d generalizing l i with
  | zero => simp [siblings, fold]
  | succ d ih =>
    simp only [siblings, fold, combine_node, ih]
    rw [Nat.div_div_eq_div_mul, ← Nat.pow_succ', show l + 1 + d = l + (d + 1) by omega]

-- Overwriting a leaf

theorem node_update_off (i : Nat) (x : D) (l j : Nat) (h : j ≠ i / 2 ^ l) :
    node hn (update leaf i x) l j = node hn leaf l j := by
  induction l generalizing j with
  | zero => simpa [node, Function.update_apply] using fun he : j = i => absurd he (by simpa using h)
  | succ l ih =>
    have hd : i / 2 ^ (l + 1) = i / 2 ^ l / 2 := by
      rw [Nat.pow_succ, Nat.div_div_eq_div_mul]
    simp only [node]
    rw [ih (2 * j) (by omega), ih (2 * j + 1) (by omega)]

theorem siblings_update (i : Nat) (x : D) (d l : Nat) :
    siblings hn (update leaf i x) d l (i / 2 ^ l) = siblings hn leaf d l (i / 2 ^ l) := by
  induction d generalizing l with
  | zero => rfl
  | succ d ih =>
    have hd : i / 2 ^ l / 2 = i / 2 ^ (l + 1) := by
      rw [Nat.pow_succ, Nat.div_div_eq_div_mul]
    simp only [siblings]
    rw [node_update_off hn leaf i x l _ (xor_one_ne _), hd, ih]

theorem node_update_path (i : Nat) (x : D) (d : Nat) :
    node hn (update leaf i x) d (i / 2 ^ d) = fold hn x i (siblings hn leaf d 0 i) := by
  have hs := siblings_update hn leaf i x d 0
  have hf := fold_siblings hn (update leaf i x) d 0 i
  simp only [Nat.pow_zero, Nat.div_one] at hs
  rw [hs, Nat.zero_add] at hf
  rw [← hf]
  simp [node]

theorem siblings_add (m k l i : Nat) :
    siblings hn leaf (m + k) l i =
      siblings hn leaf m l i ++ siblings hn leaf k (l + m) (i / 2 ^ m) := by
  induction m generalizing l i with
  | zero => simp [siblings]
  | succ m ih =>
    rw [show m + 1 + k = (m + k) + 1 by omega]
    simp only [siblings, List.cons_append, ih]
    rw [Nat.div_div_eq_div_mul, ← Nat.pow_succ', show l + 1 + m = l + (m + 1) by omega]

theorem mem_foldPairs_siblings (x : D) (i : Nat) (h : l < d) :
    children (i / 2 ^ l) (fold hn x i (siblings hn leaf l 0 i))
        (node hn leaf l (i / 2 ^ l ^^^ 1)) ∈ foldPairs hn x i (siblings hn leaf d 0 i) := by
  obtain ⟨k, rfl⟩ : ∃ k, d = l + (k + 1) := ⟨d - l - 1, by omega⟩
  rw [siblings_add, foldPairs_append, length_siblings, Nat.zero_add]
  exact List.mem_append_right _ List.mem_cons_self

end

/-- Every pair hashed by the tree after the overwrite was hashed before or is
hashed on the walk up from the new leaf. -/
theorem treePairs_update (h : q ∈ treePairs hn (update leaf i x) d) :
    q ∈ treePairs hn leaf d ∨ q ∈ foldPairs hn x i (siblings hn leaf d 0 i) := by
  obtain ⟨l, j, hl, hj, rfl⟩ := h
  by_cases hon : j = i / 2 ^ l / 2
  · -- both children as the walk sees them from the ancestor at height `l`
    right
    rw [hon, ← children_node, node_update_path, node_update_off hn leaf i x l _ (xor_one_ne _)]
    exact mem_foldPairs_siblings hn leaf x i hl
  · left
    refine ⟨l, j, hl, hj, ?_⟩
    rw [node_update_off hn leaf i x l (2 * j) (by omega),
      node_update_off hn leaf i x l (2 * j + 1) (by omega)]

-- Binding

section
variable {leaf : Nat → D} {d : Nat}

theorem fold_last (x : D) (i : Nat) (hss : ss ≠ []) :
    ∃ q ∈ foldPairs hn x i ss, fold hn x i ss = uncurry hn q := by
  induction ss generalizing x i with
  | nil => contradiction
  | cons s ss ih =>
    cases ss with
    | nil => exact ⟨_, List.mem_cons_self, (uncurry_children hn i x s).symm⟩
    | cons r rest =>
      obtain ⟨q, hq, he⟩ := ih (combine hn i x s) (i / 2) (by simp)
      exact ⟨q, List.mem_cons_of_mem _ hq, he⟩

variable {P : Set (D × D)} (hinj : Set.InjOn (uncurry hn) P)
  (htree : treePairs hn leaf d ⊆ P)
include hinj htree

theorem fold_sound_from (hd : l + ss.length ≤ d) (hi : i < 2 ^ (d - l))
    (hwalk : ∀ q ∈ foldPairs hn x i ss, q ∈ P)
    (h : fold hn x i ss = node hn leaf (l + ss.length) (i / 2 ^ ss.length)) :
    x = node hn leaf l i ∧ ss = siblings hn leaf ss.length l i := by
  induction ss generalizing x i l with
  | nil => simpa [fold, siblings] using h
  | cons s ss ih =>
    simp only [List.length_cons] at hd h
    have hpow : 2 ^ (d - l) = 2 * 2 ^ (d - (l + 1)) := by
      rw [← Nat.pow_succ', show (d - (l + 1)).succ = d - l by omega]
    have hup : fold hn (combine hn i x s) (i / 2) ss =
        node hn leaf (l + 1 + ss.length) (i / 2 / 2 ^ ss.length) := by
      rw [Nat.div_div_eq_div_mul, ← Nat.pow_succ',
        show l + 1 + ss.length = l + (ss.length + 1) by omega]
      exact h
    obtain ⟨hparent, hrest⟩ := ih (by omega) (by omega)
      (fun q hq => hwalk q (List.mem_cons_of_mem _ hq)) hup
    -- the parent was reached, so the two hashed pairs agree
    have hpair : children i x s = children i (node hn leaf l i) (node hn leaf l (i ^^^ 1)) := by
      refine hinj (hwalk _ List.mem_cons_self) (htree ?_) ?_
      · rw [children_node]
        exact ⟨l, i / 2, by omega, by rw [show d - l - 1 = d - (l + 1) by omega]; omega, rfl⟩
      · rw [uncurry_children, uncurry_children, combine_node, hparent]
    obtain ⟨hx, hs⟩ := children_injective hpair
    refine ⟨hx, ?_⟩
    rw [List.length_cons, siblings, ← hs, ← hrest]

theorem fold_sound (hlen : ss.length ≤ d) (hi : i < 2 ^ ss.length)
    (hwalk : ∀ q ∈ foldPairs hn x i ss, q ∈ P)
    (h : fold hn x i ss = node hn leaf d 0) :
    x = node hn leaf (d - ss.length) i ∧ ss = siblings hn leaf ss.length (d - ss.length) i := by
  refine fold_sound_from hn hinj htree (by omega) ?_ hwalk ?_
  · rwa [show d - (d - ss.length) = ss.length by omega]
  · rw [Nat.sub_add_cancel hlen, Nat.div_eq_of_lt hi, h]

/-- A walk longer than the tree is deep reaches the root through a leaf that
is a node hash. -/
theorem fold_deep (hlen : d < ss.length) (hi : i < 2 ^ ss.length)
    (hwalk : ∀ q ∈ foldPairs hn x i ss, q ∈ P)
    (h : fold hn x i ss = node hn leaf d 0) :
    ∃ j < 2 ^ d, ∃ q ∈ foldPairs hn x i ss, leaf j = uncurry hn q := by
  let low := ss.take (ss.length - d)
  let high := ss.drop (ss.length - d)
  have hss : ss = low ++ high := (List.take_append_drop _ _).symm
  have hlow : low.length = ss.length - d := by simp [low]
  have hhigh : high.length = d := by simp [high]; omega
  have hbound : i / 2 ^ low.length < 2 ^ d := by
    rw [Nat.div_lt_iff_lt_mul (Nat.two_pow_pos _), ← Nat.pow_add, hlow, Nat.add_sub_cancel' hlen.le]
    exact hi
  rw [hss, fold_append] at h
  rw [hss, foldPairs_append] at hwalk
  obtain ⟨hx, -⟩ := fold_sound hn hinj htree hhigh.le (by rwa [hhigh])
    (fun q hq => hwalk q (List.mem_append_right _ hq)) h
  have hne : low ≠ [] := by intro hnil; rw [hnil] at hlow; simp at hlow; omega
  obtain ⟨q, hq, he⟩ := fold_last hn x i hne
  refine ⟨i / 2 ^ low.length, hbound, q, ?_, ?_⟩
  · rw [hss, foldPairs_append]
    exact List.mem_append_left _ hq
  · rw [← he, hx, hhigh, Nat.sub_self, node]

end

-- Trees with few leaves

def levelUp (e : D) : List D → List D
  | [] => []
  | [x] => [hn x e]
  | x :: y :: rest => hn x y :: levelUp e rest

def levelPairs (e : D) : List D → List (D × D)
  | [] => []
  | [x] => [(x, e)]
  | x :: y :: rest => (x, y) :: levelPairs e rest

/-- The pairs hashed above the first leaves `xs` of a tree of depth `d` whose
other leaves are `e`. -/
def occupiedPairs : Nat → D → List D → List (D × D)
  | 0, _, _ => []
  | d + 1, e, xs => levelPairs e xs ++ occupiedPairs d (hn e e) (levelUp hn e xs)

def emptyPairs : Nat → D → List (D × D)
  | 0, _ => []
  | d + 1, e => (e, e) :: emptyPairs d (hn e e)

theorem mem_levelPairs (e : D) (xs : List D) (j : Nat) :
    (xs.getD (2 * j) e, xs.getD (2 * j + 1) e) ∈ levelPairs e xs ∨
      (xs.getD (2 * j) e, xs.getD (2 * j + 1) e) = (e, e) := by
  induction xs using levelPairs.induct generalizing j with
  | case1 => simp
  | case2 x => cases j <;> simp [levelPairs, Nat.mul_succ]
  | case3 x y rest ih =>
    cases j with
    | zero => simp [levelPairs]
    | succ j =>
      refine (ih j).imp (fun h => List.mem_cons_of_mem _ ?_) fun h => ?_
      all_goals
        simpa [Nat.mul_succ] using h

theorem getD_levelUp (e : D) (xs : List D) (j : Nat) :
    (levelUp hn e xs).getD j (hn e e) = hn (xs.getD (2 * j) e) (xs.getD (2 * j + 1) e) := by
  induction xs using levelUp.induct generalizing j with
  | case1 => simp [levelUp]
  | case2 x => cases j <;> simp [levelUp, Nat.mul_succ]
  | case3 x y rest ih =>
    cases j with
    | zero => simp [levelUp]
    | succ j => simpa [levelUp, Nat.mul_succ] using ih j

theorem node_succ (leaf : Nat → D) (l i : Nat) :
    node hn leaf (l + 1) i = node hn (fun j => hn (leaf (2 * j)) (leaf (2 * j + 1))) l i := by
  induction l generalizing i with
  | zero => rfl
  | succ l ih => rw [node, ih, ih, node]

theorem treePairs_sparse (h : q ∈ treePairs hn (fun j => xs.getD j e) d) :
    q ∈ occupiedPairs hn d e xs ∨ q ∈ emptyPairs hn d e := by
  induction d generalizing e xs with
  | zero =>
    obtain ⟨l, j, hl, -⟩ := h
    omega
  | succ d ih =>
    obtain ⟨l, j, hl, hj, rfl⟩ := h
    rw [occupiedPairs, List.mem_append]
    cases l with
    | zero =>
      refine (mem_levelPairs e xs j).imp .inl fun he => ?_
      rw [node, node, he]
      exact List.mem_cons_self
    | succ l =>
      refine (@ih (hn e e) (levelUp hn e xs) ⟨l, j, by omega, ?_, ?_⟩).imp .inr
        (List.mem_cons_of_mem _)
      · rwa [show d - l - 1 = d + 1 - (l + 1) - 1 by omega]
      · simp only [node_succ, getD_levelUp]

theorem foldPairs_siblings (hl : l + n ≤ d) (hi : i < 2 ^ (d - l))
    (h : q ∈ foldPairs hn (node hn leaf l i) i (siblings hn leaf n l i)) :
    q ∈ treePairs hn leaf d := by
  induction n generalizing l i with
  | zero => simp [siblings, foldPairs] at h
  | succ n ih =>
    have hpow : 2 ^ (d - l) = 2 * 2 ^ (d - (l + 1)) := by
      rw [← Nat.pow_succ', show (d - (l + 1)).succ = d - l by omega]
    rw [siblings, foldPairs, List.mem_cons, children_node, combine_node] at h
    rcases h with rfl | h
    · exact ⟨l, i / 2, by omega, by rw [show d - l - 1 = d - (l + 1) by omega]; omega, rfl⟩
    · exact ih (by omega) (by omega) h

end Merkle
