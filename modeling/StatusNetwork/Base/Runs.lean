
/-!
# Runs in blocks

A system takes steps, each at a time of its own, and time does not run backwards
between them. `Reachable` is what it gets into by some time; `run` executes a list of
steps.
-/

namespace Runs

variable {σ : Type u} {α : Type v} (time : α → Nat)

inductive Reachable (init : σ → Prop) (step : σ → α → σ → Prop) : σ → Nat → Prop
  | init (t : Nat) : init s → Reachable init step s t
  | step : Reachable init step s t → t ≤ time a → step s a s' → Reachable init step s' (time a)

/-- A run with its record: `past u` is the state after the last step whose time is at most `u`. -/
inductive Recorded (init : σ → Prop) (step : σ → α → σ → Prop) : σ → Nat → (Nat → σ) → Prop
  | init (t : Nat) : init s → Recorded init step s t fun _ => s
  | step : Recorded init step s t past → t ≤ time a → step s a s' →
    Recorded init step s' (time a) fun u => if u < time a then past u else s'

/-- A stretch of a run from one state and time to another, with its log: each step emits some
entries, the latest ones at the end. -/
inductive Trace (step : σ → α → σ → Prop) (emit : σ → α → σ → List γ) (s₀ : σ) (t₀ : Nat) :
    σ → Nat → List γ → Prop
  | nil : Trace step emit s₀ t₀ s₀ t₀ []
  | step : Trace step emit s₀ t₀ s t log → t ≤ time a → step s a s' →
    Trace step emit s₀ t₀ s' (time a) (log ++ emit s a s')

def Logged (init : σ → Prop) (step : σ → α → σ → Prop) (emit : σ → α → σ → List γ) (s : σ)
    (t : Nat) (log : List γ) : Prop :=
  ∃ s₀ t₀, init s₀ ∧ Trace time step emit s₀ t₀ s t log

variable {time} {init : σ → Prop} {step : σ → α → σ → Prop} {emit : σ → α → σ → List γ}

/-- What holds at the start at any time, and is kept by every step later on, always holds. -/
theorem Reachable.invariant {I : σ → Nat → Prop} (hinit : ∀ s t, init s → I s t)
    (hstep : ∀ s t a s', I s t → t ≤ time a → step s a s' → I s' (time a))
    (h : Reachable time init step s t) : I s t := by
  induction h with
  | init t hs => exact hinit _ t hs
  | step _ ht hs ih => exact hstep _ _ _ _ ih ht hs

theorem Recorded.invariant {I : σ → Nat → (Nat → σ) → Prop}
    (hinit : ∀ s t, init s → I s t fun _ => s)
    (hstep : ∀ s t past a s', I s t past → t ≤ time a → step s a s' →
      I s' (time a) fun u => if u < time a then past u else s')
    (h : Recorded time init step s t past) : I s t past := by
  induction h with
  | init t hs => exact hinit _ t hs
  | step _ ht hs ih => exact hstep _ _ _ _ _ ih ht hs

theorem Trace.invariant {I : σ → Nat → List γ → Prop} (h : Trace time step emit s₀ t₀ s t log)
    (h₀ : I s₀ t₀ [])
    (hstep : ∀ s t log a s', I s t log → t ≤ time a → step s a s' →
      I s' (time a) (log ++ emit s a s')) : I s t log := by
  induction h with
  | nil => exact h₀
  | step _ ht hs ih => exact hstep _ _ _ _ _ ih ht hs

theorem Trace.append (h : Trace time step emit s₀ t₀ s t log)
    (h' : Trace time step emit s t s' t' log') :
    Trace time step emit s₀ t₀ s' t' (log ++ log') := by
  induction h' with
  | nil => simpa using h
  | step _ ht hs ih =>
    rw [← List.append_assoc]
    exact ih.step ht hs

theorem Logged.start (t : Nat) (h : init s) : Logged time init step emit s t [] :=
  ⟨s, t, h, .nil⟩

theorem Logged.trace (h : Logged time init step emit s t log)
    (h' : Trace time step emit s t s' t' log') :
    Logged time init step emit s' t' (log ++ log') := by
  obtain ⟨s₀, t₀, hinit, h⟩ := h
  exact ⟨s₀, t₀, hinit, h.append h'⟩

theorem Logged.snoc (h : Logged time init step emit s t log) (ht : t ≤ time a) (hs : step s a s') :
    Logged time init step emit s' (time a) (log ++ emit s a s') := by
  obtain ⟨s₀, t₀, hinit, h⟩ := h
  exact ⟨s₀, t₀, hinit, h.step ht hs⟩

theorem Logged.invariant {I : σ → Nat → List γ → Prop} (hinit : ∀ s t, init s → I s t [])
    (hstep : ∀ s t log a s', I s t log → t ≤ time a → step s a s' →
      I s' (time a) (log ++ emit s a s')) (h : Logged time init step emit s t log) : I s t log := by
  obtain ⟨s₀, t₀, h₀, h⟩ := h
  exact h.invariant (hinit s₀ t₀ h₀) hstep

theorem Reachable.trace (h : Reachable time init step s t)
    (h' : Trace time step emit s t s' t' log) : Reachable time init step s' t' := by
  induction h' with
  | nil => exact h
  | step _ ht hs ih => exact ih.step ht hs

/-- Takes the steps of a list, if none fails and none is earlier than the one before. -/
def run (time : α → Nat) (f : σ → α → Except ε σ) (s : σ) (t : Nat) : List α → Option (σ × Nat)
  | [] => some (s, t)
  | a :: rest =>
    if t ≤ time a then
      match f s a with
      | .ok s' => run time f s' (time a) rest
      | .error _ => none
    else none

/-- Takes the steps of a list as `run` does, and keeps the log. -/
def play (time : α → Nat) (f : σ → α → Except ε σ) (emit : σ → α → σ → List γ) (s : σ) (t : Nat)
    (log : List γ) : List α → Option (σ × Nat × List γ)
  | [] => some (s, t, log)
  | a :: rest =>
    if t ≤ time a then
      match f s a with
      | .ok s' => play time f emit s' (time a) (log ++ emit s a s') rest
      | .error _ => none
    else none

section
variable {f : σ → α → Except ε σ} (hf : ∀ s a s', f s a = .ok s' → step s a s')
include hf

theorem Reachable.run (h : Reachable time init step s t)
    (hr : run time f s t l = some (s', t')) : Reachable time init step s' t' := by
  induction l generalizing s t with
  | nil =>
    cases hr
    exact h
  | cons a rest ih =>
    obtain ⟨ht, hr⟩ := Option.ite_none_right_eq_some.mp hr
    split at hr
    · rename_i s₁ hs
      exact ih (h.step ht (hf _ _ _ hs)) hr
    · cases hr

/-- What an observation finds at the end of an executed run, it finds in a reachable state. -/
theorem exists_reachable (h₀ : Reachable time init step s₀ t₀) (l : List α) (observe : σ → β)
    (h : ((run time f s₀ t₀ l).map fun p => (observe p.1, p.2)) = some (b, t)) :
    ∃ s, Reachable time init step s t ∧ observe s = b := by
  obtain ⟨⟨s, t'⟩, hrun, h⟩ := Option.map_eq_some_iff.mp h
  simp only [Prod.mk.injEq] at h
  obtain ⟨hb, rfl⟩ := h
  exact ⟨s, h₀.run hf hrun, hb⟩

theorem Logged.play (h : Logged time init step emit s t log)
    (hp : play time f emit s t log l = some (s', t', log')) :
    Logged time init step emit s' t' log' := by
  induction l generalizing s t log with
  | nil =>
    cases hp
    exact h
  | cons a rest ih =>
    obtain ⟨ht, hp⟩ := Option.ite_none_right_eq_some.mp hp
    split at hp
    · rename_i s₁ hs
      exact ih (h.snoc ht (hf _ _ _ hs)) hp
    · cases hp

end

/-- `exists_reachable` for steps that may only be taken where the guard holds. -/
theorem exists_reachable_guarded (guard : σ → α → Bool) (e : ε) {f : σ → α → Except ε σ}
    (hf : ∀ s a s', guard s a = true → f s a = .ok s' → step s a s')
    (h₀ : Reachable time init step s₀ t₀) (l : List α) (observe : σ → β)
    (h : ((run time (fun s a => if guard s a then f s a else .error e) s₀ t₀ l).map
      fun p => (observe p.1, p.2)) = some (b, t)) :
    ∃ s, Reachable time init step s t ∧ observe s = b := by
  refine exists_reachable (fun s a s' hs => ?_) h₀ l observe h
  split at hs
  · rename_i hguard
    exact hf s a s' hguard hs
  · cases hs

theorem exists_logged (f : σ → α → Except ε σ) (hf : ∀ s a s', f s a = .ok s' → step s a s')
    (t₀ : Nat) (h₀ : init s₀) (l : List α) (observe : σ → List γ → β)
    (h : ((play time f emit s₀ t₀ [] l).map fun p => (observe p.1 p.2.2, p.2.1)) = some (b, t)) :
    ∃ s log, Logged time init step emit s t log ∧ observe s log = b := by
  obtain ⟨⟨s, t', log⟩, hplay, h⟩ := Option.map_eq_some_iff.mp h
  simp only [Prod.mk.injEq] at h
  obtain ⟨hb, rfl⟩ := h
  exact ⟨s, log, (Logged.start t₀ h₀).play hf hplay, hb⟩

end Runs
