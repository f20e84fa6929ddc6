import Mathlib.Data.List.Induction

/-!
# Hash chains

A chain hashes the entries of a list one after the other. If the hash is injective, the end of a
chain of known length determines all its entries.
-/

namespace HashChain

variable {α : Type u} {D : Type v} (hash : D → α → D) (z : D)

def chain (l : List α) : D := l.foldl hash z

@[simp] theorem chain_nil : chain hash z [] = z := rfl

theorem chain_append (l l' : List α) :
    chain hash z (l ++ l') = chain hash (chain hash z l) l' := List.foldl_append

@[simp] theorem chain_concat (l : List α) (a : α) :
    chain hash z (l ++ [a]) = hash (chain hash z l) a := chain_append hash z l [a]

variable {hash} in
/-- From the end backwards, the last entries agree and so do the chains before them. -/
theorem chain_injective (hinj : Function.Injective2 hash) :
    ∀ {l l' : List α}, l.length = l'.length → chain hash z l = chain hash z l' → l = l' := by
  intro l
  induction l using List.reverseRecOn with
  | nil =>
    intro l' hlen _
    exact (List.eq_nil_of_length_eq_zero hlen.symm).symm
  | append_singleton l a ih =>
    intro l' hlen h
    cases l' using List.reverseRecOn with
    | nil => simp at hlen
    | append_singleton l' a' =>
      simp only [chain_concat] at h
      obtain ⟨hbefore, rfl⟩ := hinj h
      rw [ih (by simpa using hlen) hbefore]

end HashChain
