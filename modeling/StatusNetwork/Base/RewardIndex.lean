import Mathlib.Algebra.BigOperators.Ring.Finset
import Mathlib.Algebra.Order.BigOperators.Group.Finset
import Mathlib.Tactic.Ring

/-!
# Rewards shared by an index

Accounts hold shares of rewards that a growing index distributes. An account is
settled up to some index, and what it is due above that is its shares times the
rest of the index, over a scale. Everything is rounded down, so what all accounts
are due never exceeds what the index was moved for.
-/

theorem Fintype.sum_update [Fintype ι] [DecidableEq ι] (f : β → Nat) (g : ι → β) (i : ι) (b : β) :
    ∑ j, f (Function.update g i b j) + f (g i) = ∑ j, f (g j) + f b := by
  have h : (fun j => f (Function.update g i b j)) = Function.update (f ∘ g) i (f b) :=
    Function.comp_update f g i b
  rw [h, Finset.sum_update_of_mem (Finset.mem_univ i),
    ← Finset.add_sum_erase _ (fun j => f (g j)) (Finset.mem_univ i),
    Finset.sdiff_singleton_eq_erase]
  simp only [Function.comp_apply]
  ring

namespace RewardIndex

structure Account where
  shares : Nat
  /-- The index up to which the account is settled. -/
  index : Nat
  settled : Nat

namespace Account

/-- What an account is due at index `i`, times the scale. -/
def due (scale i : Nat) (a : Account) : Nat := scale * a.settled + a.shares * (i - a.index)

def balance (scale i : Nat) (a : Account) : Nat := a.settled + a.shares * (i - a.index) / scale

theorem balance_le_due (a : Account) : scale * a.balance scale i ≤ a.due scale i := by
  simp only [balance, due, Nat.mul_add]
  exact Nat.add_le_add_left (Nat.mul_div_le _ _) _

theorem due_at (shares settled : Nat) : due scale i ⟨shares, i, settled⟩ = scale * settled := by
  simp [due]

end Account

variable {ι : Type u} [Fintype ι]

def owed (scale i : Nat) (a : ι → Account) : Nat := ∑ v, (a v).due scale i

theorem owed_advance (a : ι → Account) (δ : Nat) :
    owed scale (i + δ) a ≤ owed scale i a + (∑ v, (a v).shares) * δ := by
  simp only [owed, Finset.sum_mul, ← Finset.sum_add_distrib]
  refine Finset.sum_le_sum fun v _ => ?_
  have h : (i + δ) - (a v).index ≤ (i - (a v).index) + δ := by omega
  calc (a v).due scale (i + δ) ≤ scale * (a v).settled + (a v).shares * ((i - (a v).index) + δ) :=
        Nat.add_le_add_left (Nat.mul_le_mul_left _ h) _
    _ = (a v).due scale i + (a v).shares * δ := by
        simp only [Account.due, Nat.mul_add, Nat.add_assoc]

/-- What any of the accounts are paid is covered by what covers all they are due. -/
theorem sum_balance_le (a : ι → Account) (hscale : 0 < scale)
    (h : owed scale i a ≤ scale * b) (S : Finset ι) : ∑ v ∈ S, (a v).balance scale i ≤ b := by
  refine Nat.le_of_mul_le_mul_left ?_ hscale
  calc scale * ∑ v ∈ S, (a v).balance scale i
      = ∑ v ∈ S, scale * (a v).balance scale i := Finset.mul_sum ..
    _ ≤ ∑ v ∈ S, (a v).due scale i := Finset.sum_le_sum fun v _ => (a v).balance_le_due
    _ ≤ owed scale i a := Finset.sum_le_univ_sum_of_nonneg fun _ => Nat.zero_le _
    _ ≤ scale * b := h

end RewardIndex
