import Mathlib.Data.List.Sort
import Mathlib.Data.List.TakeWhile

/-!
# Intervals that follow each other

A list of intervals of numbers, both bounds included, without gap or overlap. `lo` and `hi` read
the bounds of an element.
-/

namespace Tiling

variable {α : Type u} (lo hi : α → Nat)

def Tiles : Nat → List α → Prop
  | _, [] => True
  | n, a :: l => lo a = n + 1 ∧ lo a ≤ hi a ∧ Tiles (hi a) l

def last (n : Nat) : List α → Nat
  | [] => n
  | a :: l => last (hi a) l

variable {lo hi}

@[simp] theorem tiles_nil : Tiles lo hi n [] := trivial

@[simp] theorem tiles_cons :
    Tiles lo hi n (a :: l) ↔ lo a = n + 1 ∧ lo a ≤ hi a ∧ Tiles lo hi (hi a) l := Iff.rfl

@[simp] theorem last_nil : last hi n [] = n := rfl

@[simp] theorem last_cons : last hi n (a :: l) = last hi (hi a) l := rfl

@[simp] theorem last_append : last hi n (l ++ m) = last hi (last hi n l) m := by
  induction l generalizing n with
  | nil => rfl
  | cons a l ih => exact ih

theorem tiles_append : Tiles lo hi n (l ++ m) ↔ Tiles lo hi n l ∧ Tiles lo hi (last hi n l) m := by
  induction l generalizing n with
  | nil => simp
  | cons a l ih => simp [ih, and_assoc]

theorem Tiles.append (hl : Tiles lo hi n l) (hm : Tiles lo hi (last hi n l) m) :
    Tiles lo hi n (l ++ m) := tiles_append.mpr ⟨hl, hm⟩

theorem Tiles.le_last (h : Tiles lo hi n l) : n ≤ last hi n l := by
  induction l generalizing n with
  | nil => exact Nat.le_refl n
  | cons a l ih =>
    obtain ⟨hlo, hle, h⟩ := h
    have := ih h
    simp only [last_cons]
    omega

theorem Tiles.lo_eq (h : Tiles lo hi n (l ++ a :: m)) : lo a = last hi n l + 1 :=
  (tiles_append.mp h).2.1

theorem Tiles.lo_le_hi (h : Tiles lo hi n l) (ha : a ∈ l) : lo a ≤ hi a := by
  obtain ⟨l, m, rfl⟩ := List.append_of_mem ha
  exact (tiles_append.mp h).2.2.1

theorem Tiles.lt_lo (h : Tiles lo hi n l) (ha : a ∈ l) : n < lo a := by
  obtain ⟨l, m, rfl⟩ := List.append_of_mem ha
  have := (tiles_append.mp h).1.le_last
  have := h.lo_eq
  omega

theorem Tiles.hi_le_last (h : Tiles lo hi n l) (ha : a ∈ l) : hi a ≤ last hi n l := by
  obtain ⟨l, m, rfl⟩ := List.append_of_mem ha
  simpa using (tiles_append.mp h).2.2.2.le_last

theorem Tiles.eq_cons (h : Tiles lo hi n (l ++ m)) (ha : a ∈ l ++ m)
    (hlo : lo a = last hi n l + 1) : ∃ m', m = a :: m' := by
  obtain ⟨hl, hm⟩ := tiles_append.mp h
  rcases List.mem_append.mp ha with ha | ha
  · have hle := hl.hi_le_last ha
    have := hl.lo_le_hi ha
    omega
  · cases m with
    | nil => cases ha
    | cons b m =>
      obtain ⟨hb, hle, hm⟩ := hm
      rcases List.mem_cons.mp ha with rfl | ha
      · exact ⟨m, rfl⟩
      · have := hm.lt_lo ha
        omega

theorem Tiles.head?_eq (h : Tiles lo hi n l) (hne : l ≠ []) :
    ∃ a, l.head? = some a ∧ lo a = n + 1 := by
  cases l with
  | nil => exact absurd rfl hne
  | cons a l => exact ⟨a, rfl, h.1⟩

theorem getLast?_eq (hne : l ≠ []) : ∃ a, l.getLast? = some a ∧ hi a = last hi n l := by
  obtain rfl | ⟨l, a, rfl⟩ := List.eq_nil_or_concat l
  · exact absurd rfl hne
  · exact ⟨a, by simp, by simp⟩

theorem Tiles.exists_mem (h : Tiles lo hi n l) (hn : n < t) (hlast : t ≤ last hi n l) :
    ∃ a ∈ l, lo a ≤ t ∧ t ≤ hi a := by
  induction l generalizing n with
  | nil =>
    simp only [last_nil] at hlast
    omega
  | cons a l ih =>
    obtain ⟨hlo, hle, h⟩ := h
    rcases Nat.lt_or_ge (hi a) t with ht | ht
    · obtain ⟨b, hb, hbt⟩ := ih h ht hlast
      exact ⟨b, List.mem_cons_of_mem a hb, hbt⟩
    · exact ⟨a, List.mem_cons_self, by omega, ht⟩

theorem Tiles.exists_hi_eq (h : Tiles lo hi n l) (hn : n < t) (hlast : t ≤ last hi n l)
    (hinside : ∀ a ∈ l, ¬ (lo a ≤ t ∧ t < hi a)) : ∃ a ∈ l, hi a = t := by
  obtain ⟨a, ha, hlo, hhi⟩ := h.exists_mem hn hlast
  refine ⟨a, ha, Nat.le_antisymm ?_ hhi⟩
  exact Nat.le_of_not_lt fun hlt => hinside a ha ⟨hlo, hlt⟩

theorem exists_last_eq (n : Nat) (ha : a ∈ l) :
    ∃ l₁ l₂, l = l₁ ++ l₂ ∧ l₁ ≠ [] ∧ last hi n l₁ = hi a := by
  obtain ⟨l, m, rfl⟩ := List.append_of_mem ha
  exact ⟨l ++ [a], m, by simp, by simp, by simp⟩

theorem Tiles.takeWhile_within (h : Tiles lo hi n (l ++ m)) :
    (l ++ m).takeWhile (fun a => n + 1 ≤ lo a ∧ hi a ≤ last hi n l) = l ∧
      (l ++ m).dropWhile (fun a => n + 1 ≤ lo a ∧ hi a ≤ last hi n l) = m := by
  have hl : ∀ a ∈ l, decide (n + 1 ≤ lo a ∧ hi a ≤ last hi n l) = true := fun a ha =>
    decide_eq_true ⟨(tiles_append.mp h).1.lt_lo ha, (tiles_append.mp h).1.hi_le_last ha⟩
  rw [List.takeWhile_append_of_pos hl, List.dropWhile_append_of_pos hl]
  cases m with
  | nil => simp
  | cons b m =>
    have hb : ¬ hi b ≤ last hi n l := by
      obtain ⟨hlo, hle, -⟩ := (tiles_append.mp h).2
      omega
    simp [hb]

-- Queues in the order of the lower bounds

theorem Tiles.pairwise (h : Tiles lo hi n l) : l.Pairwise (fun a b => lo a < lo b) := by
  induction l generalizing n with
  | nil => exact .nil
  | cons a l ih =>
    obtain ⟨-, hle, h⟩ := h
    exact .cons (fun b hb => Nat.lt_of_le_of_lt hle (h.lt_lo hb)) (ih h)

theorem Tiles.insertionSort_eq (h : Tiles lo hi n l) :
    l.insertionSort (fun a b => lo a ≤ lo b) = l :=
  (h.pairwise.imp fun hlt => Nat.le_of_lt hlt).insertionSort_eq

theorem Tiles.orderedInsert_eq (h : Tiles lo hi n (l ++ [a])) :
    l.orderedInsert (fun a b => lo a ≤ lo b) a = l ++ [a] := by
  have hlt : ∀ b ∈ l, ¬ lo a ≤ lo b := by
    intro b hb
    have := (tiles_append.mp h).1.lo_le_hi hb
    have := (tiles_append.mp h).1.hi_le_last hb
    have := h.lo_eq
    omega
  rw [List.orderedInsert_eq_take_drop]
  have hall : ∀ b ∈ l, decide (¬ lo a ≤ lo b) = true := fun b hb => decide_eq_true (hlt b hb)
  rw [List.takeWhile_eq_self_iff.mpr hall, List.dropWhile_eq_nil_iff.mpr hall]

end Tiling
