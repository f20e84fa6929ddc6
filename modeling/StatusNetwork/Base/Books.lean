import Mathlib.Algebra.BigOperators.Group.List.Basic
import Mathlib.Algebra.Ring.Nat
import StatusNetwork.Base.Registry

/-!
# Books of registered accounts

Cash, the funds that are placed with registered accounts, and a running total of these funds.
`Moves` says by how much the worth of the books changes, and that the total still is the sum over
the registered accounts.
-/

/-- The accounts are an array with an index, whose first entry is a placeholder. -/
structure Books (α : Type u) where
  cash : Nat
  total : Nat
  accounts : List α
  index : α → Nat
  funds : α → Nat

namespace Books

open Registry (Indexed)
open Function (update update_of_ne update_self)

variable {α : Type u} {z : α} {b b' : Books α}

structure Balanced (z : α) (b : Books α) : Prop where
  indexed : Indexed z b.accounts b.index
  total_eq : b.total = (b.accounts.tail.map b.funds).sum

def worth (b : Books α) : Nat := b.cash + b.total

/-- From one state of the books to another, which is worth more by what is gained and less by what
is lost. -/
structure Moves (z : α) (b b' : Books α) (gained lost : Nat) : Prop where
  balanced : b.Balanced z → b'.Balanced z
  worth_eq : b.worth + gained = b'.worth + lost

theorem Moves.refl (z : α) (b : Books α) : Moves z b b 0 0 := ⟨id, rfl⟩

theorem Moves.of_eq (h : b' = b) : Moves z b b' 0 0 := h ▸ .refl z b

theorem Moves.trans (h : Moves z b b' g l) (h' : Moves z b' b'' g' l') :
    Moves z b b'' (g + g') (l + l') := by
  refine ⟨fun hb => h'.balanced (h.balanced hb), ?_⟩
  have hfirst := h.worth_eq
  have hthen := h'.worth_eq
  omega

theorem Moves.net (h : Moves z b b' g l) (hnet : g + l' = g' + l) : Moves z b b' g' l' := by
  refine ⟨h.balanced, ?_⟩
  have hworth := h.worth_eq
  omega

theorem moves_credit (b : Books α) (n : Nat) : Moves z b { b with cash := b.cash + n } n 0 := by
  refine ⟨fun hb => ⟨hb.indexed, hb.total_eq⟩, ?_⟩
  simp only [worth]
  omega

theorem moves_debit (h : n ≤ b.cash) : Moves z b { b with cash := b.cash - n } 0 n := by
  refine ⟨fun hb => ⟨hb.indexed, hb.total_eq⟩, ?_⟩
  simp only [worth]
  omega

variable [DecidableEq α]

theorem sum_map_update {l : List α} (hnodup : l.Nodup) (ha : a ∈ l) (f : α → Nat) (n : Nat) :
    (l.map (update f a n)).sum + f a = (l.map f).sum + n := by
  induction l with
  | nil => cases ha
  | cons x rest ih =>
    obtain ⟨hx, hrest⟩ := List.nodup_cons.mp hnodup
    simp only [List.map_cons, List.sum_cons]
    rcases List.mem_cons.mp ha with rfl | ha
    · have hsame : rest.map (update f a n) = rest.map f :=
        List.map_congr_left fun y hy => update_of_ne (by rintro rfl; exact hx hy) _ _
      rw [hsame, update_self]
      omega
    · rw [update_of_ne (by rintro rfl; exact hx ha)]
      have hsum := ih hrest ha
      omega

theorem Balanced.sum_update (h : b.Balanced z) (ha : b.index a ≠ 0) (n : Nat) :
    (b.accounts.tail.map (update b.funds a n)).sum + b.funds a = b.total + n := by
  rw [h.total_eq]
  exact sum_map_update h.indexed.nodup.tail (h.indexed.mem_tail_iff.mpr ha) b.funds n

theorem moves_increase (ha : b.index a ≠ 0) : Moves z b { b with
    total := b.total + n
    funds := update b.funds a (b.funds a + n) } n 0 := by
  refine ⟨fun hb => ⟨hb.indexed, ?_⟩, ?_⟩
  · have hsum := hb.sum_update ha (b.funds a + n)
    simp only
    omega
  · simp only [worth]
    omega

theorem moves_decrease (ha : b.index a ≠ 0) (hn : n ≤ b.funds a) (htotal : n ≤ b.total) :
    Moves z b { b with
      total := b.total - n
      funds := update b.funds a (b.funds a - n) } 0 n := by
  refine ⟨fun hb => ⟨hb.indexed, ?_⟩, ?_⟩
  · have hsum := hb.sum_update ha (b.funds a - n)
    simp only
    omega
  · simp only [worth]
    omega

theorem moves_add (hz : a ≠ z) (ha : b.index a = 0) : Moves z b { b with
    total := b.total + n
    accounts := b.accounts ++ [a]
    index := update b.index a b.accounts.length
    funds := update b.funds a n } n 0 := by
  refine ⟨fun hb => ?_, ?_⟩
  · have hmem : a ∉ b.accounts := by
      rw [hb.indexed.mem_iff]
      rintro (rfl | hne)
      · exact hz rfl
      · exact hne ha
    refine ⟨hb.indexed.push hmem, ?_⟩
    obtain ⟨rest, hrest⟩ := List.head?_eq_some_iff.mp hb.indexed.head
    have hsame : rest.map (update b.funds a n) = rest.map b.funds :=
      List.map_congr_left fun y hy => update_of_ne (by
        rintro rfl
        exact hmem (hrest ▸ List.mem_cons_of_mem _ hy)) _ _
    have htotal := hb.total_eq
    simp only [hrest, List.cons_append, List.tail_cons, List.map_append, List.map_singleton,
      List.sum_append, List.sum_singleton, hsame, update_self, htotal]
  · simp only [worth]
    omega

theorem moves_remove (ha : b.index a ≠ 0) (hfunds : b.funds a = 0)
    (hlast : b.accounts.getLast? = some last) : Moves z b { b with
      accounts := Registry.remove b.accounts (b.index a) last
      index := update (update b.index last (b.index a)) a 0
      funds := update b.funds a 0 } 0 0 := by
  refine ⟨fun hb => ⟨hb.indexed.remove ha hlast, ?_⟩, rfl⟩
  have hsame : update b.funds a 0 = b.funds := by rw [← hfunds, Function.update_eq_self]
  obtain ⟨rest, hrest⟩ := List.head?_eq_some_iff.mp hb.indexed.head
  obtain ⟨rest', hrest'⟩ := List.head?_eq_some_iff.mp (hb.indexed.remove ha hlast).head
  have hperm := Registry.perm_remove (hb.indexed.get ha) hlast
  rw [hrest', hrest] at hperm
  have hperm : rest.Perm (a :: rest') := (hperm.trans (.swap _ _ _)).cons_inv
  have hsum : (rest.map b.funds).sum = (rest'.map b.funds).sum := by
    rw [(hperm.map b.funds).sum_eq, List.map_cons, List.sum_cons, hfunds, Nat.zero_add]
  have htotal := hb.total_eq
  rw [hrest, List.tail_cons, hsum] at htotal
  simp only [hrest', List.tail_cons, hsame, htotal]

end Books
