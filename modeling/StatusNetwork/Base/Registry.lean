import Mathlib.Data.List.Nodup

/-!
# An array with an index

An array of distinct elements whose positions are kept in a map. The first entry is a placeholder
and elements that are not in the array have position zero, so that an element is registered iff its
position is not zero. An element is removed by putting the last one in its place.
-/

namespace Registry

open scoped List
open Function (update update_of_ne update_self)

variable {α : Type u}

/-- `index` gives the positions in `l`, and `placeholder` comes first. -/
structure Indexed (placeholder : α) (l : List α) (index : α → Nat) : Prop where
  head : l.head? = some placeholder
  nodup : l.Nodup
  get : index a ≠ 0 → l[index a]? = some a
  index_eq : i ≠ 0 → l[i]? = some a → index a = i

/-- The array without the entry at `i`, where its last entry comes. -/
def remove (l : List α) (i : Nat) (last : α) : List α := (l.set i last).dropLast

variable {l : List α} {index : α → Nat}

theorem Indexed.mem_tail_iff (h : Indexed z l index) : a ∈ l.tail ↔ index a ≠ 0 := by
  obtain ⟨rest, rfl⟩ := List.head?_eq_some_iff.mp h.head
  refine ⟨fun ha => ?_, fun ha => ?_⟩
  · obtain ⟨i, hi⟩ := List.getElem?_of_mem ha
    have hindex := h.index_eq (Nat.succ_ne_zero i) (by simpa using hi)
    simp [hindex]
  · have hget := h.get ha
    obtain ⟨i, hi⟩ := Nat.exists_eq_succ_of_ne_zero ha
    rw [hi] at hget
    exact List.mem_of_getElem? hget

theorem Indexed.mem_iff (h : Indexed z l index) : a ∈ l ↔ a = z ∨ index a ≠ 0 := by
  rw [← h.mem_tail_iff]
  obtain ⟨rest, rfl⟩ := List.head?_eq_some_iff.mp h.head
  simp

theorem indexed_singleton (z : α) : Indexed z [z] fun _ => 0 where
  head := rfl
  nodup := List.nodup_singleton z
  get := fun h => absurd rfl h
  index_eq := by
    intro i a hi ha
    obtain ⟨n, rfl⟩ := Nat.exists_eq_succ_of_ne_zero hi
    simp at ha

theorem Indexed.push [DecidableEq α] (h : Indexed z l index) (ha : a ∉ l) :
    Indexed z (l ++ [a]) (update index a l.length) := by
  obtain ⟨rest, hl⟩ := List.head?_eq_some_iff.mp h.head
  constructor
  case head => simp [hl]
  case nodup => exact List.nodup_append_comm.mp (List.nodup_cons.mpr ⟨ha, h.nodup⟩)
  case get =>
    intro b hb
    by_cases hba : b = a
    · subst hba
      simp
    · rw [update_of_ne hba] at hb ⊢
      have hget := h.get hb
      rw [List.getElem?_append_left (List.getElem?_eq_some_iff.mp hget).1]
      exact hget
  case index_eq =>
    intro i b hi hb
    rcases Nat.lt_or_ge i l.length with hlt | hge
    · rw [List.getElem?_append_left hlt] at hb
      have hba : b ≠ a := by
        rintro rfl
        exact ha (List.mem_of_getElem? hb)
      rw [update_of_ne hba]
      exact h.index_eq hi hb
    · rw [List.getElem?_append_right hge, List.getElem?_singleton] at hb
      split at hb
      · cases hb
        rw [update_self]
        omega
      · cases hb

theorem getElem?_remove (l : List α) (i j : Nat) (last : α) : (remove l i last)[j]? =
    if j < l.length - 1 then if i = j then some last else l[j]? else none := by
  simp only [remove, List.getElem?_dropLast, List.length_set, List.getElem?_set]
  split
  · split
    · split
      · rfl
      · omega
    · rfl
  · rfl

theorem perm_remove (hi : l[i]? = some a) (hlast : l.getLast? = some last) :
    l.Perm (a :: remove l i last) := by
  obtain ⟨front, rfl⟩ := List.getLast?_eq_some_iff.mp hlast
  rcases Nat.lt_or_ge i front.length with hlt | hge
  · rw [List.getElem?_append_left hlt] at hi
    obtain ⟨-, rfl⟩ := List.getElem?_eq_some_iff.mp hi
    have hremove : remove (front ++ [last]) i last =
        front.take i ++ last :: front.drop (i + 1) := by
      rw [remove, List.set_append_left _ _ hlt, List.dropLast_concat,
        List.set_eq_take_append_cons_drop, if_pos hlt]
    have hfront : front = front.take i ++ front[i] :: front.drop (i + 1) := by
      rw [List.getElem_cons_drop, List.take_append_drop]
    rw [hremove]
    calc front ++ [last]
      _ ~ last :: front := List.perm_append_singleton last front
      _ ~ last :: front[i] :: (front.take i ++ front.drop (i + 1)) := by
        refine .cons last ?_
        nth_rewrite 1 [hfront]
        exact List.perm_middle
      _ ~ front[i] :: last :: (front.take i ++ front.drop (i + 1)) := .swap _ _ _
      _ ~ front[i] :: (front.take i ++ last :: front.drop (i + 1)) :=
        .cons _ List.perm_middle.symm
  · rw [List.getElem?_append_right hge, List.getElem?_singleton] at hi
    split at hi
    · cases hi
      have heq : i = front.length := by omega
      have hremove : remove (front ++ [a]) i a = front := by
        rw [remove, heq]
        simp
      rw [hremove]
      exact List.perm_append_singleton a front
    · cases hi

theorem Indexed.remove [DecidableEq α] (h : Indexed z l index) (ha : index a ≠ 0)
    (hlast : l.getLast? = some last) :
    Indexed z (Registry.remove l (index a) last) (update (update index last (index a)) a 0) := by
  have hget := h.get ha
  have hlt : index a < l.length := (List.getElem?_eq_some_iff.mp hget).1
  have hend : l[l.length - 1]? = some last := by rw [← List.getLast?_eq_getElem?, hlast]
  have hindex : index last = l.length - 1 := h.index_eq (by omega) hend
  constructor
  case head =>
    rw [List.head?_eq_getElem?, getElem?_remove, if_pos (by omega), if_neg ha,
      ← List.head?_eq_getElem?]
    exact h.head
  case nodup =>
    exact (List.nodup_cons.mp ((perm_remove hget hlast).nodup_iff.mp h.nodup)).2
  case get =>
    intro b hb
    have hba : b ≠ a := by
      rintro rfl
      simp at hb
    rw [update_of_ne hba] at hb ⊢
    rw [getElem?_remove]
    by_cases hbl : b = last
    · subst hbl
      -- the last entry moves only if it is not the one that goes
      have hne : index a ≠ l.length - 1 := by
        intro heq
        rw [heq, hend] at hget
        exact hba (Option.some.inj hget)
      simp [show index a < l.length - 1 by omega]
    · rw [update_of_ne hbl] at hb ⊢
      have hgetb := h.get hb
      have hltb : index b < l.length := (List.getElem?_eq_some_iff.mp hgetb).1
      have hne : index b ≠ l.length - 1 := by
        intro heq
        rw [heq, hend] at hgetb
        exact hbl (Option.some.inj hgetb).symm
      have hnea : index a ≠ index b := by
        intro heq
        rw [← heq, hget] at hgetb
        exact hba (Option.some.inj hgetb).symm
      rw [if_pos (by omega), if_neg hnea]
      exact hgetb
  case index_eq =>
    intro i b hi hb
    rw [getElem?_remove] at hb
    split at hb
    · split at hb
      · rename_i hia
        cases hb
        have hba : last ≠ a := by
          rintro rfl
          omega
        rw [update_of_ne hba, update_self, hia]
      · rename_i hia
        have hindexb := h.index_eq hi hb
        have hba : b ≠ a := by
          rintro rfl
          exact hia hindexb
        have hbl : b ≠ last := by
          rintro rfl
          omega
        rw [update_of_ne hba, update_of_ne hbl]
        exact hindexb
    · cases hb

end Registry
