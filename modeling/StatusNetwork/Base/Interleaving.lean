
/-!
# Interleaved steps

A system whose parties take one step at a time, in any order. `step` says what one action does,
if it can be taken at all, and `ok` which actions a run may take.
-/

namespace Interleaving

variable {σ : Type u} {α : Type v} (step : σ → α → Option σ) (ok : σ → α → Prop)

inductive Reaches (s₀ : σ) : σ → Prop
  | start : Reaches s₀ s₀
  | next : Reaches s₀ s → ok s a → step s a = some s' → Reaches s₀ s'

/-- Takes the actions of a list, if each may be taken. -/
def exec [∀ s a, Decidable (ok s a)] (s : σ) : List α → Option σ
  | [] => some s
  | a :: rest => if ok s a then (step s a).bind (exec · rest) else none

variable {step} {ok}

theorem Reaches.invariant {I : σ → Prop} (h₀ : I s₀)
    (hstep : ∀ s a s', I s → ok s a → step s a = some s' → I s') (h : Reaches step ok s₀ s) :
    I s := by
  induction h with
  | start => exact h₀
  | next _ hok hs ih => exact hstep _ _ _ ih hok hs

theorem Reaches.mono (hsub : ∀ s a, ok s a → ok' s a) (h : Reaches step ok s₀ s) :
    Reaches step ok' s₀ s :=
  h.invariant .start fun s a _ hs hok hstep => hs.next (hsub s a hok) hstep

theorem Reaches.exec [∀ s a, Decidable (ok s a)] (h : Reaches step ok s₀ s)
    (he : exec step ok s l = some s') : Reaches step ok s₀ s' := by
  induction l generalizing s with
  | nil =>
    cases he
    exact h
  | cons a rest ih =>
    simp only [Interleaving.exec] at he
    split at he
    · rename_i hok
      obtain ⟨s₁, hs, he⟩ := Option.bind_eq_some_iff.mp he
      exact ih (h.next hok hs) he
    · cases he

theorem exists_reaches [∀ s a, Decidable (ok s a)] (l : List α) (observe : σ → β)
    (h : (exec step ok s₀ l).map observe = some b) : ∃ s, Reaches step ok s₀ s ∧ observe s = b := by
  obtain ⟨s, he, hb⟩ := Option.map_eq_some_iff.mp h
  exact ⟨s, Reaches.start.exec he, hb⟩

-- Parties kept in a list

theorem getElem?_set_some {l : List α} (h : (l.set i a)[j]? = some b) :
    (j = i ∧ b = a) ∨ (j ≠ i ∧ l[j]? = some b) := by
  rw [List.getElem?_set] at h
  split at h
  · rename_i hij
    split at h
    · exact .inl ⟨hij.symm, (Option.some.inj h).symm⟩
    · cases h
  · rename_i hij
    exact .inr ⟨fun hji => hij hji.symm, h⟩

theorem getElem?_concat_some {j : Nat} (h : (l ++ [a])[j]? = some b) : l[j]? = some b ∨ b = a := by
  rcases Nat.lt_or_ge j l.length with hj | hj
  · rw [List.getElem?_append_left hj] at h
    exact .inl h
  · rw [List.getElem?_append_right hj, List.getElem?_singleton] at h
    split at h
    · exact .inr (Option.some.inj h).symm
    · cases h

end Interleaving
