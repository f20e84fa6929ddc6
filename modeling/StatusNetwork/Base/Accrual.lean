import Mathlib.Order.Lattice.Nat

/-!
# Points that grow with time

A meter credits a point for every `unit` of weight and time since `last`, up to a cap.
Whoever pokes it gets whole points only, and as long as there is none the time stays to be
counted. So the points never exceed what the time is worth, and every poke loses less than
one of them.
-/

namespace Accrual

structure Meter where
  points : Nat
  last : Nat
  deriving DecidableEq

structure Rate where
  unit : Nat
  weight : Nat
  cap : Nat
  unit_pos : 0 < unit

namespace Rate

variable (r : Rate)

def gain (m : Meter) (now : Nat) : Nat :=
  min (r.weight * (now - m.last) / r.unit) (r.cap - m.points)

/-- The time is used up only when something is credited, or if it is forced to be. -/
def poke (m : Meter) (now : Nat) (force : Bool) : Meter :=
  if 0 < r.gain m now ∨ force = true then ⟨m.points + r.gain m now, now⟩ else m

section
variable (m : Meter) (now : Nat)

theorem points_poke (force : Bool) : (r.poke m now force).points = m.points + r.gain m now := by
  unfold poke
  split
  · rfl
  · omega

theorem last_poke (force : Bool) :
    (r.poke m now force).last = now ∨ r.gain m now = 0 ∧ (r.poke m now force).last = m.last := by
  unfold poke
  split
  · exact .inl rfl
  · exact .inr ⟨by omega, rfl⟩

theorem gain_le : r.unit * r.gain m now ≤ r.weight * (now - m.last) :=
  (Nat.mul_le_mul_left r.unit (Nat.min_le_left _ _)).trans (Nat.mul_div_le _ _)

theorem gain_spends (force : Bool) :
    r.unit * r.gain m now + r.weight * (now - (r.poke m now force).last) ≤
      r.weight * (now - m.last) := by
  have hle := r.gain_le m now
  rcases r.last_poke m now force with hlast | ⟨hgain, hlast⟩
  · rwa [hlast, Nat.sub_self]
  · rw [hgain, hlast, Nat.mul_zero, Nat.zero_add]

theorem poke_poke (force : Bool) : r.poke (r.poke m now force) now false = r.poke m now force := by
  have hnone : r.gain (r.poke m now force) now = 0 := by
    rcases r.last_poke m now force with hlast | ⟨hgain, hlast⟩
    · simp [gain, hlast]
    · have hpoints := r.points_poke m now force
      rw [hgain] at hpoints
      simp only [gain, hlast, hpoints]
      exact hgain
  generalize r.poke m now force = m' at hnone ⊢
  simp [poke, hnone]

end

-- Many pokes

structure Follows (m₀ : Meter) (n u : Nat) (m : Meter) : Prop where
  le_last : m₀.last ≤ m.last
  last_le : m.last ≤ u
  le_cap : m.points ≤ r.cap
  upper : r.unit * m.points ≤ r.unit * m₀.points + r.weight * (m.last - m₀.last)
  lower : m.points = r.cap ∨
    r.unit * m₀.points + r.weight * (u - m₀.last) ≤ r.unit * (m.points + n)

variable {r} {m m₀ : Meter}

theorem Follows.start (h : m₀.points ≤ r.cap) : r.Follows m₀ 0 m₀.last m₀ :=
  ⟨le_rfl, le_rfl, h, by simp, by simp⟩

theorem Follows.poke (h : r.Follows m₀ n u m) (hu : u ≤ now) :
    r.Follows m₀ (n + 1) now (r.poke m now false) := by
  have hle_last := h.le_last
  have hlast_le := h.last_le
  have hupper := h.upper
  have hpoints := r.points_poke m now false
  have hgain := r.gain_le m now
  -- the time since the start is what was used before, and what the meter has left
  have hsplit : r.weight * (now - m₀.last) =
      r.weight * (m.last - m₀.last) + r.weight * (now - m.last) := by
    rw [← Nat.mul_add]
    congr 1
    omega
  refine ⟨?_, ?_, ?_, ?_, ?_⟩
  · rcases r.last_poke m now false with hlast | ⟨-, hlast⟩ <;> omega
  · rcases r.last_poke m now false with hlast | ⟨-, hlast⟩ <;> omega
  · have := h.le_cap
    have : r.gain m now ≤ r.cap - m.points := Nat.min_le_right _ _
    omega
  · rw [hpoints, Nat.mul_add]
    rcases r.last_poke m now false with hlast | ⟨hzero, hlast⟩
    · rw [hlast]
      omega
    · rw [hlast, hzero]
      omega
  · rw [hpoints]
    rcases h.lower with hcap | hlower
    · left
      have : r.gain m now ≤ r.cap - m.points := Nat.min_le_right _ _
      omega
    · by_cases hfull : r.cap - m.points ≤ r.weight * (now - m.last) / r.unit
      · left
        have hle := h.le_cap
        simp only [gain, Nat.min_eq_right hfull]
        omega
      · right
        have hfloor : r.gain m now = r.weight * (now - m.last) / r.unit :=
          Nat.min_eq_left (Nat.le_of_not_le hfull)
        have hrest : r.weight * (now - m.last) < r.unit * (r.gain m now + 1) := by
          rw [hfloor]
          exact Nat.lt_mul_div_succ _ r.unit_pos
        have hused : r.weight * (m.last - m₀.last) ≤ r.weight * (u - m₀.last) :=
          Nat.mul_le_mul_left _ (by omega)
        simp only [Nat.mul_add, Nat.mul_one] at hlower hrest ⊢
        omega

/-- The points are what the time up to the last poke is worth, but for one a poke. -/
theorem Follows.bounds (h : r.Follows m₀ n u m) :
    min r.cap (m₀.points + r.weight * (u - m₀.last) / r.unit) ≤ m.points + n ∧
      m.points ≤ min r.cap (m₀.points + r.weight * (u - m₀.last) / r.unit) := by
  have hworth : m₀.points + r.weight * (u - m₀.last) / r.unit =
      (r.unit * m₀.points + r.weight * (u - m₀.last)) / r.unit :=
    (Nat.mul_add_div r.unit_pos _ _).symm
  rw [hworth]
  refine ⟨?_, le_min h.le_cap ?_⟩
  · rcases h.lower with hcap | hlower
    · exact (min_le_left _ _).trans (hcap ▸ Nat.le_add_right _ _)
    · exact (min_le_right _ _).trans (Nat.div_le_of_le_mul hlower)
  · rw [Nat.le_div_iff_mul_le r.unit_pos, Nat.mul_comm]
    have hlast : m.last - m₀.last ≤ u - m₀.last := Nat.sub_le_sub_right h.last_le _
    exact h.upper.trans (Nat.add_le_add_left (Nat.mul_le_mul_left _ hlast) _)

end Rate

end Accrual
