import Mathlib.Data.BitVec

/-!
# Flags in a word

Single bits of a word are tested, set and cleared through masks with one bit. What these do is
said once, in terms of the bits.
-/

namespace BitFlags

variable {w : Nat}

def mask (w i : Nat) : BitVec w := 1#w <<< i

def test (m : BitVec w) (i : Nat) : Bool := m &&& mask w i ≠ 0

def set (m : BitVec w) (i : Nat) : BitVec w := m ||| mask w i

def clear (m : BitVec w) (i : Nat) : BitVec w := m &&& ~~~ mask w i

@[simp] theorem getElem_mask (hj : j < w) : (mask w i)[j] = decide (i = j) := by
  simp only [mask, BitVec.getElem_shiftLeft, BitVec.getElem_one]
  by_cases hij : j < i <;> simp [hij] <;> omega

theorem test_eq_getElem (m : BitVec w) (hi : i < w) : test m i = m[i] := by
  cases h : m[i] with
  | true =>
    simp only [test, ne_eq, decide_eq_true_eq]
    intro h0
    have := congrArg (BitVec.getLsbD · i) h0
    simp [hi, h] at this
  | false =>
    simp only [test, ne_eq, decide_eq_false_iff_not, not_not]
    refine BitVec.eq_of_getElem_eq fun j hj => ?_
    by_cases hij : i = j
    · subst hij
      simp [h]
    · simp [hij]

theorem test_set (m : BitVec w) (hj : j < w) : test (set m i) j = (test m j || decide (i = j)) := by
  simp [test_eq_getElem _ hj, set]

theorem test_clear (m : BitVec w) (hj : j < w) :
    test (clear m i) j = (test m j && !decide (i = j)) := by
  simp [test_eq_getElem _ hj, clear]

@[simp] theorem test_zero (i : Nat) : test 0#w i = false := by
  simp [test]

end BitFlags
