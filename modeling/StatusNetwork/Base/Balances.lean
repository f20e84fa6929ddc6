import Mathlib.Algebra.Order.BigOperators.Group.Finset
import Mathlib.Data.Fintype.BigOperators

/-!
# Balances

What giving, taking and moving an amount does to a map of balances, and to the sum over a
part of the holders.
-/

namespace Balances

variable {ι : Type u}

section change
variable [DecidableEq ι]

def move (b : ι → Nat) (src dst : ι) (n : Nat) : ι → Nat :=
  let taken := Function.update b src (b src - n)
  Function.update taken dst (taken dst + n)

theorem move_add (h : n ≤ b src) (a : ι) :
    move b src dst n a + (if a = src then n else 0) = b a + (if a = dst then n else 0) := by
  by_cases hd : a = dst
  · subst hd
    by_cases hs : a = src
    · subst hs
      simp [move]
      omega
    · simp [move, hs]
  · by_cases hs : a = src
    · subst hs
      simp [move, hd]
      omega
    · simp [move, hd, hs]

theorem give_add (a : ι) :
    Function.update b dst (b dst + n) a = b a + (if a = dst then n else 0) := by
  by_cases ha : a = dst
  · subst ha
    simp
  · simp [ha]

theorem take_add (h : n ≤ b src) (a : ι) :
    Function.update b src (b src - n) a + (if a = src then n else 0) = b a := by
  by_cases ha : a = src
  · subst ha
    simp
    omega
  · simp [ha]

end change

section sum
variable [Fintype ι]

def part (p : ι → Prop) [DecidablePred p] (b : ι → Nat) : Nat := ∑ a, if p a then b a else 0

theorem part_true (b : ι → Nat) : part (fun _ => True) b = ∑ a, b a := by simp [part]

variable {p : ι → Prop} [DecidablePred p]

theorem part_zero : part p (fun _ => 0) = 0 := by simp [part]

theorem part_add (h : ∀ a, b' a + out a = b a + paid a) :
    part p b' + part p out = part p b + part p paid := by
  simp only [part, ← Finset.sum_add_distrib]
  refine Finset.sum_congr rfl fun a _ => ?_
  split
  · exact h a
  · rfl

theorem part_single [DecidableEq ι] (a : ι) (n : Nat) :
    part p (fun x => if x = a then n else 0) = if p a then n else 0 := by
  have h (x : ι) : (if p x then (if x = a then n else 0) else 0) =
      if x = a then (if p a then n else 0) else 0 := by
    by_cases hx : x = a
    · subst hx
      simp
    · simp [hx]
  simp only [part, h, Finset.sum_ite_eq', Finset.mem_univ, if_true]

theorem le_part (h : p a) : b a ≤ part p b := by
  refine le_trans ?_ (Finset.single_le_sum (fun _ _ => Nat.zero_le _) (Finset.mem_univ a))
  simp [h]

variable [DecidableEq ι]

theorem sum_give (b : ι → Nat) (dst : ι) (n : Nat) :
    ∑ a, Function.update b dst (b dst + n) a = ∑ a, b a + n := by
  simp only [give_add, Finset.sum_add_distrib, Finset.sum_ite_eq', Finset.mem_univ, if_true]

theorem sum_take {b : ι → Nat} (h : n ≤ b src) :
    ∑ a : ι, Function.update b src (b src - n) a + n = ∑ a, b a := by
  rw [← Finset.sum_congr rfl fun a _ => take_add h a, Finset.sum_add_distrib]
  simp only [Finset.sum_ite_eq', Finset.mem_univ, if_true]

end sum

end Balances
