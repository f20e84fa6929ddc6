import Mathlib.Data.Fintype.Defs
import StatusNetwork.Base.Interleaving

/-!
# Re-entrant locks

Threads run calls one after the other. A call is the sequence of lock operations it performs; a
thread that wants a lock another one holds waits.
-/

namespace Locks

open Function (update update_of_ne update_self)

inductive Op (L : Type u)
  | acquire (l : L)
  | release (l : L)
  deriving DecidableEq

def sync (l : L) (body : List (Op L)) : List (Op L) := .acquire l :: body ++ [.release l]

/-- `held t` has a lock as often as the thread has acquired it; `rest t` is what is left of its
call, and the thread is idle when nothing is. -/
structure State (T : Type u) (L : Type v) (κ : Type w) where
  held : T → List L
  call : T → Option κ
  rest : T → List (Op L)

inductive Action (T : Type u) (κ : Type w)
  | start (t : T) (c : κ)
  | run (t : T)
  deriving DecidableEq

section
variable {T : Type u} {L : Type v} {κ : Type w} [DecidableEq T] [DecidableEq L]

def idle : State T L κ where
  held _ := []
  call _ := none
  rest _ := []

/-- Thread `t` waits for the lock `l`, which `t'` holds. -/
def Waits (s : State T L κ) (t : T) (l : L) (t' : T) : Prop :=
  t ≠ t' ∧ (s.rest t).head? = some (.acquire l) ∧ l ∈ s.held t'

instance (s : State T L κ) : Decidable (Waits s t l t') :=
  inferInstanceAs (Decidable (_ ∧ _ ∧ _))

/-- Two threads each wait for a lock the other holds. -/
def Deadlock (s : State T L κ) : Prop := ∃ t t' l l', Waits s t l t' ∧ Waits s t' l' t

variable [Fintype T] (trace : κ → List (Op L))

def runOp (s : State T L κ) (t : T) (rest : List (Op L)) : Op L → Option (State T L κ)
  | .acquire l =>
    if ∃ t', t' ≠ t ∧ l ∈ s.held t' then none
    else some { s with
      held := Function.update s.held t (l :: s.held t)
      rest := Function.update s.rest t rest }
  | .release l => some { s with
      held := Function.update s.held t ((s.held t).erase l)
      rest := Function.update s.rest t rest }

def step (s : State T L κ) : Action T κ → Option (State T L κ)
  | .start t c =>
    if s.rest t = [] then
      some { s with
        call := Function.update s.call t (some c)
        rest := Function.update s.rest t (trace c) }
    else none
  | .run t =>
    match s.rest t with
    | [] => none
    | op :: rest => runOp s t rest op

/-- The runs of threads that start idle. -/
abbrev Reaches (ok : State T L κ → Action T κ → Prop) : State T L κ → Prop :=
  Interleaving.Reaches (step trace) ok idle

-- Lock orders

/-- The lock is taken once more, or it ranks above all that is held. -/
def Free (rank : L → Nat) (held : List L) (l : L) : Prop :=
  l ∈ held ∨ ∀ l' ∈ held, rank l' < rank l

/-- The operations take locks in the order of their ranks, and lead from `held` to `held'`. -/
def Climbs (rank : L → Nat) (held held' : List L) : List (Op L) → Prop
  | [] => held = held'
  | .acquire l :: rest => Free rank held l ∧ Climbs rank (l :: held) held' rest
  | .release l :: rest => Climbs rank (held.erase l) held' rest

instance (rank : L → Nat) (held : List L) : Decidable (Free rank held l) :=
  inferInstanceAs (Decidable (_ ∨ _))

instance Climbs.decidable (rank : L → Nat) (held held' : List L) :
    (ops : List (Op L)) → Decidable (Climbs rank held held' ops)
  | [] => inferInstanceAs (Decidable (held = held'))
  | .acquire l :: rest =>
    have := Climbs.decidable rank (l :: held) held' rest
    inferInstanceAs (Decidable (Free rank held l ∧ _))
  | .release l :: rest => Climbs.decidable rank (held.erase l) held' rest

section
variable {rank : L → Nat} {held : List L}

theorem Climbs.append (h : Climbs rank held held₁ ops) (h' : Climbs rank held₁ held' ops') :
    Climbs rank held held' (ops ++ ops') := by
  induction ops generalizing held with
  | nil =>
    cases h
    exact h'
  | cons op ops ih =>
    cases op with
    | acquire l => exact ⟨h.1, ih h.2⟩
    | release l => exact ih h

theorem Climbs.sync (hfree : Free rank held l) (h : Climbs rank (l :: held) (l :: held) ops) :
    Climbs rank held held (sync l ops) :=
  ⟨hfree, h.append (List.erase_cons_head l held)⟩

theorem Climbs.one (hfree : Free rank held l) : Climbs rank held held (Locks.sync l []) :=
  .sync hfree rfl

theorem Climbs.flatMap {f : β → List (Op L)} {bs : List β}
    (h : ∀ b ∈ bs, Climbs rank held held (f b)) : Climbs rank held held (bs.flatMap f) := by
  induction bs with
  | nil => rfl
  | cons b bs ih =>
    rw [List.flatMap_cons]
    exact (h b List.mem_cons_self).append (ih fun b' hb' => h b' (List.mem_cons_of_mem b hb'))

end

section
variable {O : Type x} (rank : O → L → Nat) (follows : O → κ → Bool)

/-- The thread has done part of the call `c`, in each order that the call follows. -/
def Running (s : State T L κ) (t : T) (c : κ) : Prop :=
  s.call t = some c ∧ (∃ o, follows o c) ∧
    ∀ o, follows o c → Climbs (rank o) (s.held t) [] (s.rest t)

/-- What holds while the calls that overlap share an order. -/
structure Ordered (s : State T L κ) : Prop where
  exclusive : ∀ t t' l, t ≠ t' → l ∈ s.held t → l ∉ s.held t'
  running : ∀ t, s.rest t = [] ∧ s.held t = [] ∨ ∃ c, Running rank follows s t c
  shared : ∀ t t' c c', t ≠ t' → s.rest t ≠ [] → s.rest t' ≠ [] → c ∈ s.call t → c' ∈ s.call t' →
    ∃ o, follows o c ∧ follows o c'

/-- A call is started by a thread that may run it. -/
def Assigned (mayRun : T → κ → Bool) (_ : State T L κ) : Action T κ → Prop
  | .start t c => mayRun t c
  | .run _ => True

/-- A call is started only while each call that another thread is in shares an order with it. -/
def SharesOrder (s : State T L κ) : Action T κ → Prop
  | .start t c => ∀ t', t' ≠ t → s.rest t' ≠ [] → ∀ c' ∈ s.call t', ∃ o, follows o c ∧ follows o c'
  | .run _ => True

instance (mayRun : T → κ → Bool) (s : State T L κ) : Decidable (Assigned mayRun s a) := by
  unfold Assigned
  split <;> infer_instance

instance [Fintype O] (s : State T L κ) : Decidable (SharesOrder follows s a) := by
  unfold SharesOrder
  split <;> infer_instance

variable {trace} {rank} {follows}

omit [DecidableEq T] [Fintype T] in
theorem idle_ordered : Ordered rank follows (idle : State T L κ) := by
  constructor <;> simp [idle]

theorem Climbs.lt {rank : L → Nat} (h : Climbs rank held held' ops)
    (hw : ops.head? = some (.acquire l)) (hl : l ∉ held) (hl' : l' ∈ held) : rank l' < rank l := by
  cases ops with
  | nil => cases hw
  | cons op rest =>
    obtain rfl : op = .acquire l := by simpa using hw
    exact h.1.resolve_left hl l' hl'

omit [DecidableEq T] [Fintype T] in
theorem Ordered.no_deadlock {s : State T L κ} (h : Ordered rank follows s) : ¬ Deadlock s := by
  rintro ⟨t, t', l, l', ⟨hne, hw, hl⟩, -, hw', hl'⟩
  have hbusy : s.rest t ≠ [] := fun hrest => by simp [hrest] at hw
  have hbusy' : s.rest t' ≠ [] := fun hrest => by simp [hrest] at hw'
  obtain ⟨c, hc, -, hclimbs⟩ := (h.running t).resolve_left fun hidle => hbusy hidle.1
  obtain ⟨c', hc', -, hclimbs'⟩ := (h.running t').resolve_left fun hidle => hbusy' hidle.1
  obtain ⟨o, ho, ho'⟩ := h.shared t t' c c' hne hbusy hbusy' hc hc'
  -- in the order both calls follow, each lock ranks above the other one
  have hlt := (hclimbs o ho).lt hw (fun hmem => h.exclusive t t' l hne hmem hl) hl'
  have hgt := (hclimbs' o ho').lt hw' (fun hmem => h.exclusive t' t l' hne.symm hmem hl') hl
  exact Nat.lt_asymm hlt hgt

omit [Fintype T] in
theorem Ordered.run {s : State T L κ} (h : Ordered rank follows s) (hrest : s.rest t = op :: rest)
    (hclimbs : ∀ o, Climbs (rank o) (s.held t) [] (op :: rest) → Climbs (rank o) held [] rest)
    (hmem : ∀ l ∈ held, l ∈ s.held t ∨ ∀ t', t' ≠ t → l ∉ s.held t') :
    Ordered rank follows { s with
      held := update s.held t held
      rest := update s.rest t rest } := by
  have hbusy {t'} (hne : update s.rest t rest t' ≠ []) : s.rest t' ≠ [] := by
    by_cases ht : t' = t
    · simp [ht, hrest]
    · simpa [update_of_ne ht] using hne
  constructor
  · intro t₁ t₂ l hne h₁ h₂
    by_cases ht₁ : t₁ = t
    · subst ht₁
      simp only [update_self, update_of_ne hne.symm] at h₁ h₂
      rcases hmem l h₁ with hl | hl
      · exact h.exclusive _ _ l hne hl h₂
      · exact hl t₂ hne.symm h₂
    · simp only [update_of_ne ht₁] at h₁
      by_cases ht₂ : t₂ = t
      · subst ht₂
        simp only [update_self] at h₂
        rcases hmem l h₂ with hl | hl
        · exact h.exclusive _ _ l hne h₁ hl
        · exact hl t₁ ht₁ h₁
      · simp only [update_of_ne ht₂] at h₂
        exact h.exclusive _ _ l hne h₁ h₂
  · intro t'
    by_cases ht : t' = t
    · subst ht
      obtain ⟨c, hc, ho, hold⟩ := (h.running t').resolve_left fun hidle => by simp [hrest] at hidle
      refine .inr ⟨c, hc, ho, fun o hf => ?_⟩
      simpa using hclimbs o (hrest ▸ hold o hf)
    · simpa [Running, update_of_ne ht] using h.running t'
  · exact fun t₁ t₂ c c' hne h₁ h₂ => h.shared t₁ t₂ c c' hne (hbusy h₁) (hbusy h₂)

omit [Fintype T] in
theorem Ordered.start {s : State T L κ} (h : Ordered rank follows s) (hrest : s.rest t = [])
    (hfollows : ∃ o, follows o c) (htrace : ∀ o, follows o c → Climbs (rank o) [] [] (trace c))
    (hok : SharesOrder follows s (.start t c)) :
    Ordered rank follows { s with
      call := update s.call t (some c)
      rest := update s.rest t (trace c) } := by
  have hheld : s.held t = [] := by
    rcases h.running t with ⟨-, hheld⟩ | ⟨c', -, ⟨o, ho⟩, hclimbs⟩
    · exact hheld
    · simpa [hrest, Climbs] using hclimbs o ho
  constructor
  · exact h.exclusive
  · intro t'
    by_cases ht : t' = t
    · subst ht
      exact .inr ⟨c, by simp, hfollows, by simpa [hheld] using htrace⟩
    · simpa [Running, update_of_ne ht] using h.running t'
  · intro t₁ t₂ c₁ c₂ hne h₁ h₂ hc₁ hc₂
    by_cases ht₁ : t₁ = t
    · subst ht₁
      simp only [update_self, update_of_ne hne.symm, Option.mem_some] at h₂ hc₁ hc₂
      exact hc₁ ▸ hok t₂ hne.symm h₂ c₂ hc₂
    · simp only [update_of_ne ht₁] at h₁ hc₁
      by_cases ht₂ : t₂ = t
      · subst ht₂
        simp only [update_self, Option.mem_some] at hc₂
        obtain ⟨o, ho, ho'⟩ := hok t₁ ht₁ h₁ c₁ hc₁
        exact ⟨o, ho', hc₂ ▸ ho⟩
      · simp only [update_of_ne ht₂] at h₂ hc₂
        exact h.shared t₁ t₂ c₁ c₂ hne h₁ h₂ hc₁ hc₂

section
variable (hfollows : ∀ c, ∃ o, follows o c)
  (htrace : ∀ c o, follows o c → Climbs (rank o) [] [] (trace c))
include hfollows htrace

theorem step_ordered {s s' : State T L κ} (h : Ordered rank follows s)
    (hok : SharesOrder follows s a) (hs : step trace s a = some s') : Ordered rank follows s' := by
  cases a with
  | start t c =>
    obtain ⟨hrest, ⟨⟩⟩ := Option.ite_none_right_eq_some.mp hs
    exact h.start hrest (hfollows c) (htrace c) hok
  | run t =>
    simp only [step] at hs
    split at hs
    · cases hs
    · rename_i op rest hrest
      cases op with
      | acquire l =>
        obtain ⟨hfree, ⟨⟩⟩ := Option.ite_none_left_eq_some.mp hs
        refine h.run hrest (fun o hclimbs => hclimbs.2) ?_
        simp only [List.mem_cons, forall_eq_or_imp]
        exact ⟨.inr fun t' ht' hl => hfree ⟨t', ht', hl⟩, fun l' hl' => .inl hl'⟩
      | release l =>
        cases hs
        exact h.run hrest (fun o hclimbs => hclimbs) fun l' hl' => .inl (List.mem_of_mem_erase hl')

/-- If every call takes its locks in the orders it follows, and calls overlap only if they share
an order, no two threads ever wait for each other. -/
theorem no_deadlock {ok : State T L κ → Action T κ → Prop}
    (hok : ∀ s a, ok s a → SharesOrder follows s a) (h : Reaches trace ok s) : ¬ Deadlock s :=
  (h.invariant idle_ordered fun _ _ _ hi ha hs =>
    step_ordered hfollows htrace hi (hok _ _ ha) hs).no_deadlock

end

end

end

end Locks
