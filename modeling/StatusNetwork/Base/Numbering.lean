import Mathlib.Data.List.Sort

/-!
# Consecutive numbers

Lists whose elements carry the numbers from some `n` on, without a gap.
-/

namespace Numbering

variable {α : Type u}

def Consecutive (number : α → Nat) (n : Nat) (l : List α) : Prop :=
  l.map number = List.range' n l.length

namespace Consecutive

variable {number : α → Nat} {l : List α}

@[simp] theorem nil : Consecutive number n [] := rfl

@[simp] theorem cons :
    Consecutive number n (a :: l) ↔ number a = n ∧ Consecutive number (n + 1) l := by
  simp [Consecutive, List.range'_succ]

theorem append :
    Consecutive number n (l ++ m) ↔
      Consecutive number n l ∧ Consecutive number (n + l.length) m := by
  induction l generalizing n with
  | nil => simp
  | cons a l ih =>
    rw [List.cons_append, cons, cons, ih, and_assoc, List.length_cons, Nat.add_right_comm,
      Nat.add_assoc]

section
variable (h : Consecutive number n l)
include h

theorem take (k : Nat) : Consecutive number n (l.take k) := by
  rw [← List.take_append_drop k l] at h
  exact (append.mp h).1

theorem drop (k : Nat) : Consecutive number (n + k) (l.drop k) := by
  rw [Consecutive, List.map_drop, h, List.drop_range', List.length_drop, Nat.mul_one]

theorem le_number (ha : a ∈ l) : n ≤ number a := by
  have hmem : number a ∈ l.map number := List.mem_map_of_mem ha
  rw [h] at hmem
  exact (List.mem_range'_1.mp hmem).1

theorem insertionSort_eq : l.insertionSort (fun a b => number a ≤ number b) = l := by
  have hsorted : (l.map number).Pairwise (· ≤ ·) := by
    rw [h]
    exact List.pairwise_le_range' ..
  exact (List.pairwise_map.mp hsorted).insertionSort_eq

theorem filter_le_eq : l.filter (n ≤ number ·) = l :=
  List.filter_eq_self.mpr fun _ ha => decide_eq_true (h.le_number ha)

omit h in
theorem filter_ne_eq (h : Consecutive number n (a :: l)) :
    (a :: l).filter (number · ≠ number a) = l := by
  obtain ⟨ha, hl⟩ := cons.mp h
  rw [List.filter_cons_of_neg (by simp), List.filter_eq_self]
  intro b hb
  have := hl.le_number hb
  exact decide_eq_true (by omega)

theorem dropWhile_eq (k : Nat) : l.dropWhile (number · ≤ k) = l.drop (k + 1 - n) := by
  induction l generalizing n with
  | nil => simp
  | cons a l ih =>
    obtain ⟨ha, h⟩ := cons.mp h
    rw [List.dropWhile_cons]
    split
    · rename_i hle
      simp only [ha, decide_eq_true_eq] at hle
      obtain ⟨j, hj⟩ : ∃ j, k + 1 - n = j + 1 := ⟨k - n, by omega⟩
      rw [ih h, hj, List.drop_succ_cons]
      congr 1
      omega
    · rename_i hle
      simp only [ha, decide_eq_true_eq] at hle
      rw [Nat.sub_eq_zero_of_le (by omega), List.drop_zero]

theorem takeWhile_eq (k : Nat) : l.takeWhile (number · ≤ k) = l.take (k + 1 - n) := by
  have happend := List.takeWhile_append_dropWhile (p := (number · ≤ k)) (l := l)
  rw [h.dropWhile_eq] at happend
  exact List.append_cancel_right (happend.trans (List.take_append_drop _ l).symm)

end

theorem getLast?_eq (h : Consecutive number (n + 1) l) :
    (l.getLast?.map number).getD n = n + l.length := by
  induction l generalizing n with
  | nil => rfl
  | cons a l ih =>
    obtain ⟨ha, h⟩ := cons.mp h
    have hl := ih h
    cases l with
    | nil => simpa using ha
    | cons b l =>
      rw [List.length_cons, Nat.add_comm _ 1, ← Nat.add_assoc, ← hl]
      simp [List.getLast?_cons]

end Consecutive

end Numbering
