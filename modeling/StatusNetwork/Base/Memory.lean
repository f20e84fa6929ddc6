import StatusNetwork.Base.Digits

/-!
# Memory in bytes

A memory has a byte at every address; so has read-only data that is zero beyond its end. Words are
32 bytes, the most significant one first. What was written is read back, and writing elsewhere does
not matter.
-/

namespace Memory

abbrev Byte := Fin 256

variable {m d : Nat → Byte} {p q n : Nat}

def read (m : Nat → Byte) (p n : Nat) : List Byte := (List.range n).map fun i => m (p + i)

def write (m : Nat → Byte) (p : Nat) (l : List Byte) : Nat → Byte := fun a =>
  if p ≤ a then l[a - p]?.getD (m a) else m a

def word (w : Nat) : List Byte := Digits.encode 256 32 w

def load (m : Nat → Byte) (p : Nat) : Nat := Digits.decode (read m p 32)

def store (m : Nat → Byte) (p w : Nat) : Nat → Byte := write m p (word w)

def copy (m : Nat → Byte) (p : Nat) (d : Nat → Byte) (q n : Nat) : Nat → Byte :=
  write m p (read d q n)

@[simp] theorem length_read (m : Nat → Byte) (p n : Nat) : (read m p n).length = n := by
  simp [read]

@[simp] theorem length_word (w : Nat) : (word w).length = 32 := Digits.length_encode 256 32 w

section
variable (m : Nat → Byte)

theorem read_add (p n k : Nat) : read m p (n + k) = read m p n ++ read m (p + n) k := by
  simp [read, List.range_add, Nat.add_assoc]

theorem take_drop_read (p n k r : Nat) :
    ((read m p (n + (k + r))).drop n).take k = read m (p + n) k := by
  rw [read_add, List.drop_left' (length_read ..), read_add, List.take_left' (length_read ..)]

theorem word_load (p : Nat) : word (load m p) = read m p 32 := by
  have h := Digits.encode_decode (read m p 32)
  rwa [length_read] at h

theorem read_words (p n : Nat) :
    read m p (32 * n) = ((List.range n).map fun i => load m (p + 32 * i)).flatMap word := by
  induction n with
  | zero => simp [read]
  | succ n ih => simp [Nat.mul_succ, read_add, ih, List.range_succ, word_load]

theorem read_write (p : Nat) (l : List Byte) : read (write m p l) p l.length = l := by
  refine List.ext_getElem (by simp) fun i _ hi => ?_
  simp [read, write, hi]

end

theorem read_write_of_disjoint (h : p + n ≤ q ∨ q + l.length ≤ p) :
    read (write m q l) p n = read m p n := by
  refine List.map_congr_left fun i hi => ?_
  have hi := List.mem_range.mp hi
  unfold write
  split
  · rw [List.getElem?_eq_none (by omega), Option.getD_none]
  · rfl

@[simp] theorem read_store (m : Nat → Byte) (p w : Nat) : read (store m p w) p 32 = word w := by
  have h := read_write m p (word w)
  rwa [length_word] at h

theorem read_store_of_disjoint (h : p + n ≤ q ∨ q + 32 ≤ p) :
    read (store m q w) p n = read m p n := read_write_of_disjoint (by simpa using h)

@[simp] theorem read_copy (m : Nat → Byte) (p : Nat) (d : Nat → Byte) (q n : Nat) :
    read (copy m p d q n) p n = read d q n := by
  have h := read_write m p (read d q n)
  rwa [length_read] at h

theorem read_copy_of_disjoint (h : p + n ≤ q ∨ q + k ≤ p) :
    read (copy m q d r k) p n = read m p n := read_write_of_disjoint (by simpa using h)

/-- Writing right after what is read makes the reading longer. -/
theorem read_write_append (m : Nat → Byte) (p n : Nat) (l : List Byte) :
    read (write m (p + n) l) p (n + l.length) = read m p n ++ l := by
  rw [read_add, read_write, read_write_of_disjoint (.inl le_rfl)]

theorem read_store_append (m : Nat → Byte) (p n w : Nat) :
    read (store m (p + n) w) p (n + 32) = read m p n ++ word w := by
  have h := read_write_append m p n (word w)
  rwa [length_word] at h

theorem read_copy_append (m : Nat → Byte) (p n : Nat) (d : Nat → Byte) (q k : Nat) :
    read (copy m (p + n) d q k) p (n + k) = read m p n ++ read d q k := by
  have h := read_write_append m p n (read d q k)
  rwa [length_read] at h

theorem read_zero (h : ∀ i, i < n → m (p + i) = 0) : read m p n = List.replicate n 0 := by
  refine List.eq_replicate_iff.mpr ⟨by simp, fun b hb => ?_⟩
  obtain ⟨i, hi, rfl⟩ := List.mem_map.mp hb
  exact h i (List.mem_range.mp hi)

end Memory
