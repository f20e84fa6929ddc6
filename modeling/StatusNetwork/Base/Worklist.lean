import StatusNetwork.Base.Control

/-!
# Work that comes back

Elements are processed one after the other. Processing one may hand elements back, which are
processed again before the next one, and may hand back others in turn. `once` says what is done
with one element; in `process` the depth of the recursion is bounded.
-/

namespace Worklist

variable {σ α : Type v} {ε : Type u} (once : σ → α → Except ε (σ × List α)) (exhausted : ε)

def process : Nat → σ → α → Except ε σ
  | 0, _, _ => .error exhausted
  | fuel + 1, s, a => do
    let (s, again) ← once s a
    again.foldlM (process fuel) s

/-- What becomes of a state when the elements of a list are processed, to any depth. -/
inductive Processes : σ → List α → σ → Prop
  | done : Processes s [] s
  | next : once s a = .ok (s₁, again) → Processes s₁ (again ++ rest) s' → Processes s (a :: rest) s'

variable {once} {exhausted}

theorem process_succ_ok : process once exhausted (fuel + 1) s a = .ok s' ↔
    ∃ s₁ again, once s a = .ok (s₁, again) ∧
      again.foldlM (process once exhausted fuel) s₁ = .ok s' := by
  simp only [process, bind_eq_ok, Prod.exists]

-- What holds afterwards

theorem Processes.append (hl : Processes once s l s₁) (hm : Processes once s₁ m s₂) :
    Processes once s (l ++ m) s₂ := by
  induction hl with
  | done => exact hm
  | next honce _ ih => exact .next honce (by simpa using ih hm)

theorem foldlM_processes {f : σ → α → Except ε σ}
    (hf : ∀ s a s', f s a = .ok s' → Processes once s [a] s') (h : l.foldlM f s = .ok s') :
    Processes once s l s' := by
  induction l generalizing s with
  | nil =>
    cases h
    exact .done
  | cons a l ih =>
    rw [List.foldlM_cons, bind_eq_ok] at h
    obtain ⟨s₁, ha, h⟩ := h
    exact (hf s a s₁ ha).append (ih h)

theorem process_processes (h : process once exhausted fuel s a = .ok s') :
    Processes once s [a] s' := by
  induction fuel generalizing s a s' with
  | zero => cases h
  | succ fuel ih =>
    obtain ⟨s₁, again, honce, h⟩ := process_succ_ok.mp h
    exact .next honce (by simpa using foldlM_processes (fun _ _ _ => ih) h)

/-- What `once` keeps, with the elements that still wait, holds when none waits any more. -/
theorem Processes.invariant {I : σ → List α → Prop}
    (hstep : ∀ s a rest s₁ again, I s (a :: rest) → once s a = .ok (s₁, again) →
      I s₁ (again ++ rest)) (h : Processes once s l s') (h₀ : I s l) : I s' [] := by
  induction h with
  | done => exact h₀
  | next honce _ ih => exact ih (hstep _ _ _ _ _ h₀ honce)

-- How deep the recursion goes

section
variable (I : σ → List α → Prop) (size : σ → Nat)

theorem foldlM_ok {f : σ → α → Except ε σ} (hf : ∀ s a rest, I s (a :: rest) → size s < fuel →
      ∃ s', f s a = .ok s' ∧ I s' rest ∧ size s' ≤ size s + 1) (h : I s (l ++ rest))
    (hfuel : l ≠ [] → size s + l.length ≤ fuel) :
    ∃ s', l.foldlM f s = .ok s' ∧ I s' rest ∧ size s' ≤ size s + l.length := by
  induction l generalizing s with
  | nil => exact ⟨s, rfl, h, Nat.le_refl _⟩
  | cons a l ih =>
    have hlen := hfuel (List.cons_ne_nil a l)
    simp only [List.length_cons] at hlen ⊢
    obtain ⟨s₁, ha, h₁, hsize⟩ := hf s a (l ++ rest) h (by omega)
    obtain ⟨s', hl, h', hsize'⟩ := ih h₁ fun _ => by omega
    refine ⟨s', ?_, h', by omega⟩
    rw [List.foldlM_cons, ha]
    exact hl

/-- Where an element takes up one place at most, and none is gained when some come back, the depth
is bounded by the places that are taken. -/
theorem process_ok (hstep : ∀ s a rest, I s (a :: rest) → ∃ s₁ again, once s a = .ok (s₁, again) ∧
      I s₁ (again ++ rest) ∧ size s₁ + again.length ≤ size s + 1 ∧
      (again ≠ [] → size s₁ + again.length ≤ size s))
    (h : I s (a :: rest)) (hfuel : size s < fuel) :
    ∃ s', process once exhausted fuel s a = .ok s' ∧ I s' rest ∧ size s' ≤ size s + 1 := by
  induction fuel generalizing s a rest with
  | zero => exact absurd hfuel (Nat.not_lt_zero _)
  | succ fuel ih =>
    obtain ⟨s₁, again, honce, h₁, hsize, hback⟩ := hstep s a rest h
    have hdeep : again ≠ [] → size s₁ + again.length ≤ fuel := fun hne => by
      have := hback hne
      omega
    obtain ⟨s', hfold, h', hsize'⟩ := foldlM_ok I size (fun _ _ _ => ih) h₁ hdeep
    exact ⟨s', process_succ_ok.mpr ⟨s₁, again, honce, hfold⟩, h', by omega⟩

end

theorem foldlM_mono {f g : σ → α → Except ε σ} (hfg : ∀ s a s', f s a = .ok s' → g s a = .ok s')
    {l : List α} (h : l.foldlM f s = .ok s') : l.foldlM g s = .ok s' := by
  induction l generalizing s with
  | nil => exact h
  | cons a l ih =>
    rw [List.foldlM_cons, bind_eq_ok] at h ⊢
    obtain ⟨s₁, ha, h⟩ := h
    exact ⟨s₁, hfg s a s₁ ha, ih h⟩

theorem process_mono (h : process once exhausted fuel s a = .ok s') (hle : fuel ≤ fuel') :
    process once exhausted fuel' s a = .ok s' := by
  induction fuel' generalizing fuel s a s' with
  | zero =>
    rw [Nat.le_zero.mp hle] at h
    cases h
  | succ fuel' ih =>
    cases fuel with
    | zero => cases h
    | succ fuel =>
      obtain ⟨s₁, again, honce, h⟩ := process_succ_ok.mp h
      exact process_succ_ok.mpr ⟨s₁, again, honce,
        foldlM_mono (fun _ _ _ ha => ih ha (Nat.le_of_succ_le_succ hle)) h⟩

end Worklist
