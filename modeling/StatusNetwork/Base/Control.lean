import Mathlib.Algebra.Ring.Nat

/-!
# Computations that may fail

How a computation in `Except` splits into its steps.
-/

namespace Except

variable {ε : Type u} {α : Type v}

theorem bind_eq_ok {f : α → Except ε β} : x >>= f = .ok b ↔ ∃ a, x = .ok a ∧ f a = .ok b := by
  cases x with
  | error e | ok a => simp [bind, Except.bind]

theorem map_eq_ok {x : Except ε α} : x.map f = .ok b ↔ ∃ a, x = .ok a ∧ f a = b := by
  cases x <;> simp [Except.map]

@[simp] theorem mapError_eq_ok {x : Except ε' α} : x.mapError f = .ok a ↔ x = .ok a := by
  constructor
  all_goals
    intro h
    cases x <;> cases h
    rfl

@[simp] theorem toOption_eq_some {x : Except ε α} : x.toOption = some a ↔ x = .ok a := by
  cases x <;> simp [Except.toOption]

def thrown : Except ε α → Option ε
  | .ok _ => none
  | .error e => some e

theorem thrown_eq_some {x : Except ε α} : x.thrown = some e ↔ x = .error e := by
  cases x <;> simp [thrown]

@[simp] theorem ok_bind (a : α) (f : α → Except ε β) : (.ok a : Except ε α) >>= f = f a := rfl

@[simp] theorem error_bind (e : ε) (f : α → Except ε β) :
    (.error e : Except ε α) >>= f = .error e := rfl

theorem guard_eq_ok [Decidable c] {x : Except ε α} :
    (if c then .error e else x) = .ok a ↔ ¬ c ∧ x = .ok a := by
  by_cases h : c <;> simp [h]

/-- `if (c) revert e`. -/
def failIf (c : Prop) [Decidable c] (e : ε) : Except ε Unit := if c then .error e else .ok ()

@[simp] theorem failIf_eq_ok [Decidable c] : failIf c e = .ok u ↔ ¬ c := by
  by_cases h : c <;> simp [failIf, h]

theorem failIf_neg [Decidable c] (h : ¬ c) : failIf c e = .ok () := if_neg h

/-- What one step of a loop preserves, the loop preserves. -/
theorem foldlM_invariant {f : β → γ → Except ε β} (motive : β → Prop)
    (step : ∀ b c b', motive b → f b c = .ok b' → motive b') :
    ∀ {l : List γ} {b b'}, motive b → l.foldlM f b = .ok b' → motive b'
  | [], b, b', hb, h => by
    cases h
    exact hb
  | c :: l, b, b', hb, h => by
    rw [List.foldlM_cons, bind_eq_ok] at h
    obtain ⟨b₁, h₁, h⟩ := h
    exact foldlM_invariant motive step (step b c b₁ hb h₁) h

/-- A loop succeeds if each of its steps does and takes the invariant one element further. -/
theorem foldlM_succeeds {f : β → γ → Except ε β} (motive : List γ → β → Prop) (h₀ : motive [] b)
    (step : ∀ done c b, c ∈ l → motive done b → ∃ b', f b c = .ok b' ∧ motive (done ++ [c]) b') :
    ∃ b', l.foldlM f b = .ok b' ∧ motive l b' := by
  suffices h : ∀ rest done b, (∀ c ∈ rest, c ∈ l) → motive done b →
      ∃ b', rest.foldlM f b = .ok b' ∧ motive (done ++ rest) b' from h l [] b (fun _ h => h) h₀
  intro rest
  induction rest with
  | nil => exact fun done b _ hb => ⟨b, rfl, by simpa using hb⟩
  | cons c rest ih =>
    intro done b hmem hb
    obtain ⟨b₁, hstep, h₁⟩ := step done c b (hmem c List.mem_cons_self) hb
    obtain ⟨b', hrest, h'⟩ := ih (done ++ [c]) b₁
      (fun c hc => hmem c (List.mem_cons_of_mem _ hc)) h₁
    exact ⟨b', by rw [List.foldlM_cons, hstep]; exact hrest, by simpa using h'⟩

theorem foldlM_range_succeeds {f : β → Nat → Except ε β} (motive : Nat → β → Prop) (h₀ : motive 0 b)
    (step : ∀ k b, k < n → motive k b → ∃ b', f b k = .ok b' ∧ motive (k + 1) b') :
    ∃ b', (List.range n).foldlM f b = .ok b' ∧ motive n b' := by
  induction n with
  | zero => exact ⟨b, rfl, h₀⟩
  | succ n ih =>
    obtain ⟨b₁, hfirst, h₁⟩ := ih fun k b hk => step k b (Nat.lt_succ_of_lt hk)
    obtain ⟨b', hlast, h'⟩ := step n b₁ (Nat.lt_succ_self n) h₁
    refine ⟨b', ?_, h'⟩
    rw [List.range_succ, List.foldlM_append, hfirst, ok_bind, List.foldlM_cons, hlast]
    rfl

/-- Every error of the computation satisfies `P`. -/
def Fails (P : ε → Prop) (x : Except ε α) : Prop := ∀ e, x = .error e → P e

theorem Fails.ok (a : α) : Fails P (.ok a) := by
  rintro e ⟨⟩

theorem Fails.error (h : P e) : Fails P (.error e : Except ε α) := by
  rintro _ ⟨⟩
  exact h

theorem Fails.bind (hx : Fails P x) (hf : ∀ a, x = .ok a → Fails P (f a)) : Fails P (x >>= f) := by
  cases x with
  | error e =>
    rintro _ ⟨⟩
    exact hx e rfl
  | ok a => exact hf a rfl

theorem Fails.failIf [Decidable c] (h : P e) : Fails P (Except.failIf c e) := by
  by_cases hc : c
  · rw [Except.failIf, if_pos hc]
    exact .error h
  · rw [Except.failIf, if_neg hc]
    exact .ok ()

theorem Fails.guard [Decidable c] {α : Type} {f : Unit → Except ε α} (he : P e)
    (hf : Fails P (f ())) : Fails P (Except.failIf c e >>= f) :=
  .bind (.failIf he) fun _ _ => hf

theorem Fails.failIf_not [Decidable c] (h : ¬ c) : Fails P (Except.failIf c e) := by
  rw [Except.failIf, if_neg h]
  exact .ok ()

theorem Fails.ite [Decidable c] (hx : c → Fails P x) (hy : ¬ c → Fails P y) :
    Fails P (if c then x else y) := by
  by_cases hc : c
  · rw [if_pos hc]
    exact hx hc
  · rw [if_neg hc]
    exact hy hc

theorem Fails.mono (hx : Fails P x) (h : ∀ e, P e → Q e) : Fails Q x := fun e he => h e (hx e he)

theorem Fails.map (hx : Fails P x) : Fails P (x.map f) := by
  cases x with
  | error e => exact .error (hx e rfl)
  | ok a => exact .ok _

theorem Fails.mapError {x : Except ε' α} (h : ∀ e, P (f e)) : Fails P (x.mapError f) := by
  cases x with
  | error e => exact .error (h e)
  | ok a => exact .ok _

theorem Fails.foldlM {f : β → γ → Except ε β} (motive : β → Prop)
    (step : ∀ b c b', motive b → f b c = .ok b' → motive b')
    (hf : ∀ b c, motive b → Fails P (f b c)) {l : List γ} (hb : motive b) :
    Fails P (l.foldlM f b) := by
  induction l generalizing b with
  | nil => exact .ok b
  | cons c l ih =>
    exact .bind (hf b c hb) fun b' h => ih (step b c b' hb h)

end Except

export Except (bind_eq_ok failIf map_eq_ok failIf_eq_ok ok_bind mapError_eq_ok failIf_neg
  guard_eq_ok)
