import Mathlib.Data.List.Induction
import Mathlib.Tactic.Ring

/-!
# Numbers of fixed width

The last digits of a number in some base, the most significant one first, as bits or bytes on the
wire. A digit of a base that is a power of another one is a group of digits of the latter.
-/

namespace Digits

instance neZero_byte : NeZero 256 := ⟨by decide⟩

variable {b : Nat}

/-- The last `k` digits of `n`. -/
def encode (b : Nat) [NeZero b] : (k n : Nat) → List (Fin b)
  | 0, _ => []
  | k + 1, n => encode b k (n / b) ++ [Fin.ofNat b n]

def decode (l : List (Fin b)) : Nat := l.foldl (fun n (d : Fin b) => b * n + d.val) 0

@[simp] theorem length_encode (b : Nat) [NeZero b] (k n : Nat) : (encode b k n).length = k := by
  induction k generalizing n with
  | zero => rfl
  | succ k ih => simp [encode, ih]

@[simp] theorem decode_nil : decode ([] : List (Fin b)) = 0 := rfl

@[simp] theorem decode_singleton (d : Fin b) : decode [d] = d := by
  simp [decode]

theorem decode_append (l m : List (Fin b)) :
    decode (l ++ m) = b ^ m.length * decode l + decode m := by
  induction m using List.reverseRecOn with
  | nil => simp
  | append_singleton m d ih =>
    have hsnoc : ∀ l : List (Fin b), decode (l ++ [d]) = b * decode l + d := fun l => by
      simp [decode]
    rw [← List.append_assoc, hsnoc, hsnoc, ih, List.length_append, List.length_singleton]
    ring

theorem decode_lt (l : List (Fin b)) : decode l < b ^ l.length := by
  induction l using List.reverseRecOn with
  | nil => simp
  | append_singleton l d ih =>
    rw [decode_append, decode_singleton, List.length_append, List.length_singleton, pow_one]
    calc b * decode l + d < b * decode l + b := Nat.add_lt_add_left d.isLt _
      _ = b * (decode l + 1) := by ring
      _ ≤ b * b ^ l.length := Nat.mul_le_mul_left b ih
      _ = b ^ l.length * b := Nat.mul_comm ..

variable [NeZero b]

@[simp] theorem decode_replicate_zero (k : Nat) : decode (List.replicate k (0 : Fin b)) = 0 := by
  induction k with
  | zero => rfl
  | succ k ih =>
    rw [List.replicate_succ', decode_append, ih]
    rfl

@[simp] theorem decode_encode (k n : Nat) : decode (encode b k n) = n % b ^ k := by
  induction k generalizing n with
  | zero => simp [encode, Nat.mod_one]
  | succ k ih =>
    rw [encode, decode_append, ih, decode_singleton, Fin.val_ofNat, List.length_singleton, pow_one,
      pow_succ', Nat.mod_mul, Nat.add_comm]

theorem encode_decode (l : List (Fin b)) : encode b l.length (decode l) = l := by
  induction l using List.reverseRecOn with
  | nil => rfl
  | append_singleton l d ih =>
    have hb : 0 < b := Nat.pos_of_neZero b
    have hdiv : (b * decode l + d) / b = decode l := by
      rw [Nat.mul_add_div hb, Nat.div_eq_of_lt d.isLt, Nat.add_zero]
    have hmod : Fin.ofNat b (b * decode l + d) = d := by
      apply Fin.ext
      rw [Fin.val_ofNat, Nat.mul_add_mod, Nat.mod_eq_of_lt d.isLt]
    rw [decode_append, decode_singleton, List.length_append, List.length_singleton, pow_one, encode,
      hdiv, hmod, ih]

theorem decode_encode_of_lt (h : n < b ^ k) : decode (encode b k n) = n := by
  rw [decode_encode, Nat.mod_eq_of_lt h]

end Digits
