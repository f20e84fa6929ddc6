import StatusNetwork.Base.Control

/-!
# Checked arithmetic of 256-bit words

Words are natural numbers below `2 ^ 256`. An operation that would leave them
fails, with the error that `raise` makes of the reason. `mulDiv` multiplies with
512 bits and fails only when the quotient does not fit.
-/

namespace Checked

inductive ArithError
  | overflow
  | divisionByZero
  | mulDivOverflow
  deriving DecidableEq

def size : Nat := 2 ^ 256

variable {ε : Type u} (raise : ArithError → ε)

def add (a b : Nat) : Except ε Nat :=
  if a + b < size then .ok (a + b) else .error (raise .overflow)

def sub (a b : Nat) : Except ε Nat :=
  if b ≤ a then .ok (a - b) else .error (raise .overflow)

def mul (a b : Nat) : Except ε Nat :=
  if a * b < size then .ok (a * b) else .error (raise .overflow)

def div (a b : Nat) : Except ε Nat :=
  if b = 0 then .error (raise .divisionByZero) else .ok (a / b)

/-- The high word of the product decides whether the quotient fits. -/
def mulDiv (x y d : Nat) : Except ε Nat :=
  if x * y < size then div raise (x * y) d
  else if d ≤ x * y / size then .error (raise .mulDivOverflow)
  else .ok (x * y / d)

def mulDivUp (x y d : Nat) : Except ε Nat := do
  let r ← mulDiv raise x y d
  if 0 < x * y % d then add raise r 1 else .ok r

variable {raise}

@[simp] theorem add_eq_ok : add raise a b = .ok c ↔ a + b < size ∧ c = a + b := by
  by_cases h : a + b < size <;> simp [add, h, eq_comm]

@[simp] theorem sub_eq_ok : sub raise a b = .ok c ↔ b ≤ a ∧ c = a - b := by
  by_cases h : b ≤ a <;> simp [sub, h, eq_comm]

@[simp] theorem mul_eq_ok : mul raise a b = .ok c ↔ a * b < size ∧ c = a * b := by
  by_cases h : a * b < size <;> simp [mul, h, eq_comm]

@[simp] theorem div_eq_ok : div raise a b = .ok c ↔ b ≠ 0 ∧ c = a / b := by
  by_cases h : b = 0 <;> simp [div, h, eq_comm]

@[simp] theorem mulDiv_eq_ok :
    mulDiv raise x y d = .ok r ↔ d ≠ 0 ∧ x * y < d * size ∧ r = x * y / d := by
  have hs : 0 < size := by simp [size]
  unfold mulDiv
  split
  · rename_i hfit
    rw [div_eq_ok]
    refine and_congr_right fun hd => ?_
    have : x * y < d * size :=
      Nat.lt_of_lt_of_le hfit (Nat.le_mul_of_pos_left _ (Nat.pos_of_ne_zero hd))
    simp [this]
  · rw [guard_eq_ok, Nat.not_le, Nat.div_lt_iff_lt_mul hs]
    refine ⟨?_, ?_⟩
    · rintro ⟨hlt, h⟩
      cases h
      refine ⟨?_, hlt, rfl⟩
      rintro rfl
      simp at hlt
    · rintro ⟨-, hlt, rfl⟩
      exact ⟨hlt, rfl⟩

section fails
variable {P : ε → Prop} (h : ∀ e, P (raise e))
include h

theorem add_fails : Except.Fails P (add raise a b) :=
  .ite (fun _ => .ok _) fun _ => .error (h _)

theorem sub_fails : Except.Fails P (sub raise a b) :=
  .ite (fun _ => .ok _) fun _ => .error (h _)

theorem mul_fails : Except.Fails P (mul raise a b) :=
  .ite (fun _ => .ok _) fun _ => .error (h _)

theorem mulDiv_fails : Except.Fails P (mulDiv raise x y d) :=
  .ite (fun _ => .ite (fun _ => .error (h _)) fun _ => .ok _) fun _ =>
    .ite (fun _ => .error (h _)) fun _ => .ok _

end fails

theorem sub_fails_of_le (h : b ≤ a) : Except.Fails P (sub raise a b) := by
  rw [sub, if_pos h]
  exact .ok _

theorem mulDivUp_ok (h : mulDivUp raise x y d = .ok r) (hy : y ≤ d) :
    r ≤ x ∧ x - r = x * (d - y) / d := by
  simp only [mulDivUp, bind_eq_ok, mulDiv_eq_ok] at h
  obtain ⟨q, ⟨hd, -, rfl⟩, h⟩ := h
  have hpos : 0 < d := Nat.pos_of_ne_zero hd
  have hsplit : x * y / d * d + x * y % d = x * y := Nat.div_add_mod' _ _
  have hmod : x * y % d < d := Nat.mod_lt _ hpos
  have hle : x * y ≤ x * d := Nat.mul_le_mul_left x hy
  have hr : r = x * y / d ∧ x * y % d = 0 ∨ r = x * y / d + 1 ∧ 0 < x * y % d := by
    split at h
    · rename_i hrest
      exact .inr ⟨(add_eq_ok.mp h).2, hrest⟩
    · cases h
      exact .inl ⟨rfl, by omega⟩
  have hrd : r * d ≤ x * d ∧ x * y ≤ r * d ∧ r * d < x * y + d := by
    rcases hr with ⟨rfl, h0⟩ | ⟨rfl, h0⟩
    · omega
    · have hq : x * y / d < x := Nat.lt_of_mul_lt_mul_right (a := d) (by omega)
      have hup : (x * y / d + 1) * d ≤ x * d := Nat.mul_le_mul_right d hq
      rw [Nat.succ_mul] at hup ⊢
      omega
  refine ⟨Nat.le_of_mul_le_mul_right hrd.1 hpos, ?_⟩
  symm
  refine Nat.div_eq_of_lt_le ?_ ?_
  · rw [Nat.mul_sub, Nat.sub_mul]
    omega
  · rw [Nat.mul_sub, Nat.succ_mul, Nat.sub_mul]
    omega

/-- What a computation returns, or nothing. -/
def value : Except ε Nat → Nat
  | .ok n => n
  | .error _ => 0

theorem foldlM_add_ok {f : γ → Except ε Nat} {l : List γ}
    (h : l.foldlM (fun total c => do let b ← f c; add raise total b) a = .ok n) :
    (∀ c ∈ l, f c = .ok (value (f c))) ∧ n = a + (l.map fun c => value (f c)).sum := by
  induction l generalizing a with
  | nil =>
    cases h
    exact ⟨by simp, rfl⟩
  | cons c l ih =>
    simp only [List.foldlM_cons, bind_eq_ok, add_eq_ok] at h
    obtain ⟨_, ⟨b, hc, -, rfl⟩, h⟩ := h
    obtain ⟨hrest, hn⟩ := ih h
    have hvalue : value (f c) = b := by rw [hc]; rfl
    refine ⟨?_, ?_⟩
    · rintro x (_ | ⟨_, hx⟩)
      · rw [hvalue, hc]
      · exact hrest x ‹_›
    · simp only [List.map_cons, List.sum_cons, hvalue]
      omega

theorem foldlM_add_eq {f : γ → Except ε Nat} {l : List γ} (hf : ∀ c ∈ l, f c = .ok (value (f c)))
    (hfit : a + (l.map fun c => value (f c)).sum < size) :
    l.foldlM (fun total c => do let b ← f c; add raise total b) a =
      .ok (a + (l.map fun c => value (f c)).sum) := by
  induction l generalizing a with
  | nil => rfl
  | cons c l ih =>
    simp only [List.map_cons, List.sum_cons] at hfit ⊢
    have hc := hf c List.mem_cons_self
    generalize value (f c) = n at hc hfit
    have hadd : add raise a n = .ok (a + n) := add_eq_ok.mpr ⟨by omega, rfl⟩
    have hrest := ih (a := a + n) (fun x hx => hf x (List.mem_cons_of_mem c hx)) (by omega)
    rw [List.foldlM_cons, hc, ok_bind, hadd, ok_bind, hrest, Nat.add_assoc]

end Checked
