import StatusNetwork.Base.Runs
import StatusNetwork.Security.AccessControl

/-!
# The rate limiter

Models `RateLimiter.sol`. A period starts with the first amount used after the last one has
ended, and the amounts used in a period stay within the limit.
-/

namespace StatusNetwork.Security

structure RateLimiter where
  periodInSeconds : Nat
  limitInWei : Nat
  currentPeriodEnd : Nat
  currentPeriodAmountInWei : Nat

namespace RateLimiter

abbrev add := Checked.add Revert.arithmetic

def initialized (now periodInSeconds limitInWei : Nat) : Except Revert RateLimiter := do
  failIf (periodInSeconds = 0) .periodIsZero
  failIf (limitInWei = 0) .limitIsZero
  let currentPeriodEnd ← add now periodInSeconds
  .ok ⟨periodInSeconds, limitInWei, currentPeriodEnd, 0⟩

variable (s : RateLimiter)

def addUsedAmount (now usedAmount : Nat) : Except Revert RateLimiter :=
  if usedAmount = 0 then .ok s
  else do
    let (currentPeriodEnd, usedAmount) ← (
      if s.currentPeriodEnd < now then do
        let periodEnd ← add now s.periodInSeconds
        .ok (periodEnd, usedAmount)
      else do
        let usedAmount ← add usedAmount s.currentPeriodAmountInWei
        .ok (s.currentPeriodEnd, usedAmount))
    failIf (usedAmount > s.limitInWei) .rateLimitExceeded
    .ok { s with currentPeriodEnd, currentPeriodAmountInWei := usedAmount }

def resetRateLimitAmount (roles : Roles) (now : Nat) (sender : Address) (amount : Nat) :
    Except Revert RateLimiter := do
  roles.onlyRole .rateLimitSetter sender
  if s.currentPeriodEnd < now then do
    let currentPeriodEnd ← add now s.periodInSeconds
    .ok { s with currentPeriodEnd, limitInWei := amount, currentPeriodAmountInWei := 0 }
  else if amount < s.currentPeriodAmountInWei then
    .ok { s with limitInWei := amount, currentPeriodAmountInWei := amount }
  else .ok { s with limitInWei := amount }

def resetAmountUsedInPeriod (roles : Roles) (sender : Address) : Except Revert RateLimiter := do
  roles.onlyRole .usedRateLimitResetter sender
  .ok { s with currentPeriodAmountInWei := 0 }

-- Runs

inductive Action
  | addUsedAmount (usedAmount : Nat)
  | resetRateLimitAmount (amount : Nat)
  | resetAmountUsedInPeriod

structure Tx where
  sender : Address
  now : Nat
  roles : Roles
  action : Action

def apply (tx : Tx) : Except Revert RateLimiter :=
  match tx.action with
  | .addUsedAmount usedAmount => s.addUsedAmount tx.now usedAmount
  | .resetRateLimitAmount amount => s.resetRateLimitAmount tx.roles tx.now tx.sender amount
  | .resetAmountUsedInPeriod => s.resetAmountUsedInPeriod tx.roles tx.sender

def Reachable : RateLimiter → (now : Nat) → Prop :=
  Runs.Reachable Tx.now (fun s => ∃ now period limit, initialized now period limit = .ok s)
    fun s tx s' => s.apply tx = .ok s'

/-- An amount other than zero that was accepted, and the end of the period it was counted in. -/
structure Use where
  time : Nat
  amount : Nat
  periodEnd : Nat
  deriving DecidableEq

structure Spend where
  now : Nat
  usedAmount : Nat

def uses (_ : RateLimiter) (a : Spend) (s' : RateLimiter) : List Use :=
  if a.usedAmount = 0 then [] else [⟨a.now, a.usedAmount, s'.currentPeriodEnd⟩]

/-- Runs of `addUsedAmount` alone, from any state the limiter gets into, with the uses they make. -/
def Spends (period limit : Nat) : RateLimiter → (now : Nat) → List Use → Prop :=
  Runs.Logged Spend.now
    (fun s => (∃ now, Reachable s now) ∧ s.periodInSeconds = period ∧ s.limitInWei = limit)
    (fun s a s' => s.addUsedAmount a.now a.usedAmount = .ok s') uses

def total (uses : List Use) : Nat := (uses.map Use.amount).sum

variable {s} {s' : RateLimiter}

-- One call

/-- What an accepted amount does: it opens a period or is counted in the current one. -/
theorem addUsedAmount_ok (h : s.addUsedAmount now used = .ok s') (hused : used ≠ 0) :
    (s.currentPeriodEnd < now ∧ s' = { s with
          currentPeriodEnd := now + s.periodInSeconds, currentPeriodAmountInWei := used } ∨
      now ≤ s.currentPeriodEnd ∧
        s' = { s with currentPeriodAmountInWei := used + s.currentPeriodAmountInWei }) ∧
    s'.currentPeriodAmountInWei ≤ s.limitInWei := by
  simp only [addUsedAmount, hused, if_false, bind_eq_ok, failIf_eq_ok, Nat.not_lt] at h
  obtain ⟨⟨periodEnd, total⟩, hperiod, -, hlimit, ⟨⟩⟩ := h
  refine ⟨?_, hlimit⟩
  split at hperiod
  · rename_i hlt
    simp only [bind_eq_ok, Checked.add_eq_ok] at hperiod
    obtain ⟨_, ⟨-, rfl⟩, ⟨⟩⟩ := hperiod
    exact .inl ⟨hlt, rfl⟩
  · rename_i hle
    simp only [bind_eq_ok, Checked.add_eq_ok] at hperiod
    obtain ⟨_, ⟨-, rfl⟩, ⟨⟩⟩ := hperiod
    exact .inr ⟨Nat.le_of_not_lt hle, rfl⟩

theorem addUsedAmount_zero (h : s.addUsedAmount now 0 = .ok s') : s' = s := (Except.ok.inj h).symm

theorem initialized_ok (h : initialized now period limit = .ok s) :
    s = ⟨period, limit, now + period, 0⟩ := by
  simp only [initialized, bind_eq_ok, Checked.add_eq_ok] at h
  obtain ⟨-, -, -, -, _, ⟨-, rfl⟩, h⟩ := h
  exact (Except.ok.inj h).symm

/-- The amount counted in the current period never exceeds the limit in force. -/
def WithinLimit (s : RateLimiter) : Prop := s.currentPeriodAmountInWei ≤ s.limitInWei

theorem apply_withinLimit (hs : s.WithinLimit) (h : s.apply tx = .ok s') : s'.WithinLimit := by
  unfold apply at h
  split at h
  · rename_i used _
    by_cases hused : used = 0
    · subst hused
      rwa [addUsedAmount_zero h]
    · obtain ⟨hcase, hle⟩ := addUsedAmount_ok h hused
      rcases hcase with ⟨-, rfl⟩ | ⟨-, rfl⟩ <;> exact hle
  · simp only [resetRateLimitAmount, bind_eq_ok] at h
    obtain ⟨-, -, h⟩ := h
    split at h
    · obtain ⟨_, -, ⟨⟩⟩ := bind_eq_ok.mp h
      exact Nat.zero_le _
    · split at h
      · cases h
        exact Nat.le_refl _
      · rename_i hle
        cases h
        exact Nat.le_of_not_lt hle
  · simp only [resetAmountUsedInPeriod, bind_eq_ok] at h
    obtain ⟨-, -, ⟨⟩⟩ := h
    exact Nat.zero_le _

theorem Reachable.withinLimit (h : Reachable s t) : s.WithinLimit := by
  refine Runs.Reachable.invariant (I := fun s _ => s.WithinLimit) ?_ ?_ h
  · rintro s t ⟨now, period, limit, hinit⟩
    rw [initialized_ok hinit]
    exact Nat.zero_le _
  · intro s t tx s' hs _ h
    exact apply_withinLimit hs h

-- Runs of `addUsedAmount`

@[simp] theorem total_nil : total [] = 0 := rfl

@[simp] theorem total_cons : total (u :: l) = u.amount + total l := by
  simp [total]

@[simp] theorem total_append : total (l ++ l') = total l + total l' := by
  simp [total]

theorem total_sublist (h : l.Sublist l') : total l ≤ total l' := by
  induction h with
  | slnil => exact Nat.le_refl _
  | cons u _ ih | cons_cons u _ ih => simp only [total_cons]; omega

theorem total_split (e : Nat) (l : List Use) :
    total (l.filter (·.periodEnd = e)) + total (l.filter (·.periodEnd ≠ e)) = total l := by
  induction l with
  | nil => rfl
  | cons u l ih => by_cases h : u.periodEnd = e <;> simp [h] at ih ⊢ <;> omega

/-- How a use stands to a later moment: in the period running then, or in one before it. -/
def Before (period : Nat) (u : Use) (time periodEnd : Nat) : Prop :=
  u.periodEnd = periodEnd ∨ u.periodEnd < time ∧ u.periodEnd + period < periodEnd

theorem Before.mono (h : Before period u t periodEnd) (ht : t ≤ t') :
    Before period u t' periodEnd := by
  rcases h with h | ⟨hlt, h⟩
  · exact .inl h
  · exact .inr ⟨Nat.lt_of_lt_of_le hlt ht, h⟩

/-- What a run of uses keeps. -/
structure Keeps (period limit : Nat) (s : RateLimiter) (t : Nat) (log : List Use) : Prop where
  periodInSeconds : s.periodInSeconds = period
  limitInWei : s.limitInWei = limit
  inPeriod : ∀ u ∈ log, u.time ≤ u.periodEnd
  current : ∀ u ∈ log, Before period u t s.currentPeriodEnd
  ordered : log.Pairwise fun u v => Before period u v.time v.periodEnd
  currentTotal : total (log.filter (·.periodEnd = s.currentPeriodEnd)) ≤ s.currentPeriodAmountInWei
  totals : ∀ e, total (log.filter (·.periodEnd = e)) ≤ limit

theorem Keeps.later (h : Keeps period limit s t log) (ht : t ≤ t') : Keeps period limit s t' log :=
  { h with current := fun u hu => (h.current u hu).mono ht }

theorem Keeps.use (h : Keeps period limit s t log) (hend : t ≤ periodEnd)
    (hbefore : ∀ u ∈ log, Before period u t periodEnd)
    (htotal : total (log.filter (·.periodEnd = periodEnd)) + amount ≤ used)
    (hlimit : used ≤ limit) :
    Keeps period limit
      { s with currentPeriodEnd := periodEnd, currentPeriodAmountInWei := used } t
      (log ++ [⟨t, amount, periodEnd⟩]) := by
  refine ⟨h.periodInSeconds, h.limitInWei, ?_, ?_, ?_, ?_, ?_⟩
  · simpa [or_imp, forall_and] using ⟨h.inPeriod, hend⟩
  · simpa [or_imp, forall_and] using ⟨hbefore, .inl rfl⟩
  · simpa [List.pairwise_append] using ⟨h.ordered, hbefore⟩
  · simpa using htotal
  · intro e
    by_cases he : periodEnd = e
    · subst he
      simpa using Nat.le_trans htotal hlimit
    · simpa [he] using h.totals e

theorem addUsedAmount_keeps (hk : Keeps period limit s t log) (ht : t ≤ a.now)
    (h : s.addUsedAmount a.now a.usedAmount = .ok s') :
    Keeps period limit s' a.now (log ++ uses s a s') := by
  replace hk := hk.later ht
  by_cases hused : a.usedAmount = 0
  · rw [hused] at h
    obtain rfl := addUsedAmount_zero h
    simpa [uses, hused] using hk
  · obtain ⟨hcase, hle⟩ := addUsedAmount_ok h hused
    simp only [uses, hused, if_false]
    rcases hcase with ⟨hlt, rfl⟩ | ⟨hnow, rfl⟩
    · -- Every use so far belongs to a period that has ended.
      have hbefore : ∀ u ∈ log, u.periodEnd < a.now := by
        intro u hu
        rcases hk.current u hu with heq | ⟨hlt', -⟩
        · omega
        · exact hlt'
      have hnone : log.filter (·.periodEnd = a.now + s.periodInSeconds) = [] := by
        simp only [List.filter_eq_nil_iff, decide_eq_true_eq]
        intro u hu
        have := hbefore u hu
        omega
      refine hk.use (Nat.le_add_right _ _) ?_ (by simp [hnone]) (hk.limitInWei ▸ hle)
      intro u hu
      have := hbefore u hu
      rw [← hk.periodInSeconds]
      exact .inr ⟨this, by omega⟩
    · refine hk.use hnow hk.current ?_ (hk.limitInWei ▸ hle)
      have := hk.currentTotal
      omega

theorem Spends.keeps (h : Spends period limit s t log) : Keeps period limit s t log := by
  refine Runs.Logged.invariant ?_ ?_ h
  · rintro s t ⟨-, hperiod, hlimit⟩
    exact ⟨hperiod, hlimit, by simp, by simp, .nil, by simp, by simp⟩
  · intro s t log a s' hk ht h
    exact addUsedAmount_keeps hk ht h

/-- No three periods have uses within one period's length of each other. -/
theorem Before.two_periods {x y z : Use} (hx : x.time ≤ x.periodEnd)
    (hxy : Before period x y.time y.periodEnd)
    (hyz : Before period y z.time z.periodEnd) (hz : z.time ≤ x.time + period) :
    y.periodEnd = x.periodEnd ∨ z.periodEnd = y.periodEnd := by
  rcases hxy with h | ⟨-, h⟩
  · exact .inl h.symm
  · rcases hyz with h' | ⟨h', -⟩
    · exact .inr h'.symm
    · omega

theorem ends_of_window {l : List Use}
    (hord : l.Pairwise fun u v => Before period u v.time v.periodEnd)
    (hin : ∀ u ∈ l, u.time ≤ u.periodEnd) (hwin : ∀ u ∈ l, ∀ v ∈ l, v.time ≤ u.time + period) :
    ∃ e e', ∀ u ∈ l, u.periodEnd = e ∨ u.periodEnd = e' := by
  cases l with
  | nil => exact ⟨0, 0, by simp⟩
  | cons x l =>
    obtain ⟨hx, hord⟩ := List.pairwise_cons.mp hord
    -- The second period is that of the first use outside the first one.
    cases hf : l.filter (·.periodEnd ≠ x.periodEnd) with
    | nil =>
      refine ⟨x.periodEnd, 0, ?_⟩
      simp only [List.filter_eq_nil_iff, decide_eq_true_eq, not_not] at hf
      simpa using fun u hu => .inl (hf u hu)
    | cons y rest =>
      have hy : ∀ z ∈ y :: rest, z ∈ l ∧ z.periodEnd ≠ x.periodEnd := by
        intro z hz
        rw [← hf] at hz
        simpa using hz
      have hyz := (List.pairwise_cons.mp (hf ▸ hord.filter _)).1
      refine ⟨x.periodEnd, y.periodEnd, ?_⟩
      intro u hu
      by_cases hux : u.periodEnd = x.periodEnd
      · exact .inl hux
      · refine .inr ?_
        have hul : u ∈ l := (List.mem_cons.mp hu).resolve_left fun h => hux (h ▸ rfl)
        have hmem : u ∈ y :: rest := by
          rw [← hf]
          simpa using ⟨hul, hux⟩
        rcases List.mem_cons.mp hmem with rfl | hrest
        · rfl
        · have hyl := hy y List.mem_cons_self
          have := (hx y hyl.1).two_periods (hin x List.mem_cons_self) (hyz u hrest)
            (hwin x List.mem_cons_self u hu)
          exact this.resolve_left hyl.2

theorem Keeps.window_total (h : Keeps period limit s t log) (hlen : b ≤ a + period) :
    total (log.filter fun u => a ≤ u.time ∧ u.time ≤ b) ≤ 2 * limit := by
  generalize hw : (log.filter fun u => a ≤ u.time ∧ u.time ≤ b) = w
  have hsub : w.Sublist log := hw ▸ List.filter_sublist
  have hmem : ∀ u ∈ w, a ≤ u.time ∧ u.time ≤ b := by
    intro u hu
    rw [← hw] at hu
    simpa using (List.mem_filter.mp hu).2
  obtain ⟨e, e', hends⟩ := ends_of_window (h.ordered.sublist hsub)
    (fun u hu => h.inPeriod u (hsub.subset hu)) (fun u hu v hv => by
      have := hmem u hu
      have := hmem v hv
      omega)
  have hfirst : total (w.filter (·.periodEnd = e)) ≤ limit :=
    Nat.le_trans (total_sublist (hsub.filter _)) (h.totals e)
  have hsecond : total (w.filter (·.periodEnd ≠ e)) ≤ limit := by
    have hrest : w.filter (·.periodEnd ≠ e) =
        (w.filter (·.periodEnd = e')).filter (·.periodEnd ≠ e) := by
      rw [List.filter_filter]
      refine List.filter_congr fun u hu => ?_
      rcases hends u hu with he | he <;> simp [he]
    rw [hrest]
    exact Nat.le_trans (total_sublist (List.filter_sublist.trans (hsub.filter _))) (h.totals e')
  have := total_split e w
  omega

/-- With the limit and the period left alone, the amounts accepted in any stretch of time no
longer than the period add up to at most twice the limit, and those of one period to at most
the limit; with resets at any time the amount used stays within the limit in force. -/
theorem uses_limited :
    (∀ period limit s t log, Spends period limit s t log →
      (∀ a b, b ≤ a + period →
        total (log.filter fun u => a ≤ u.time ∧ u.time ≤ b) ≤ 2 * limit) ∧
      ∀ e, total (log.filter (·.periodEnd = e)) ≤ limit) ∧
    ∀ s t, Reachable s t → s.currentPeriodAmountInWei ≤ s.limitInWei := by
  refine ⟨?_, ?_⟩
  · intro period limit s t log h
    exact ⟨fun a b hlen => h.keeps.window_total hlen, h.keeps.totals⟩
  · intro s t h
    exact h.withinLimit

theorem uses_limited_across_periods :
    (∃ s log, Spends 100 10 s 201 log ∧ total log = 20 ∧
      total (log.filter fun u => 101 ≤ u.time ∧ u.time ≤ 201) ≤ 2 * 10) ∧
    ∃ s, Reachable s 140 ∧ s.limitInWei = 5 ∧ s.currentPeriodAmountInWei ≤ s.limitInWei := by
  refine ⟨?_, ?_⟩
  · have hr : Reachable ⟨100, 10, 150, 0⟩ 0 := .init 0 ⟨50, 100, 10, rfl⟩
    have h₀ : Spends 100 10 ⟨100, 10, 150, 0⟩ 0 [] := .start 0 ⟨⟨0, hr⟩, rfl, rfl⟩
    have h₁ : Spends 100 10 ⟨100, 10, 150, 10⟩ 150 [⟨150, 10, 150⟩] :=
      Runs.Logged.snoc (a := (⟨150, 10⟩ : Spend)) h₀ (by decide) rfl
    have h₂ : Spends 100 10 ⟨100, 10, 301, 10⟩ 201 [⟨150, 10, 150⟩, ⟨201, 10, 301⟩] :=
      Runs.Logged.snoc (a := (⟨201, 10⟩ : Spend)) h₁ (by decide) rfl
    exact ⟨_, _, h₂, rfl, (uses_limited.1 _ _ _ _ _ h₂).1 101 201 (by decide)⟩
  · have h₀ : Reachable ⟨100, 10, 150, 0⟩ 0 := .init 0 ⟨50, 100, 10, rfl⟩
    have h₁ : Reachable ⟨100, 10, 150, 8⟩ 130 :=
      Runs.Reachable.step (a := (⟨1, 130, ⟨fun _ _ => true⟩, .addUsedAmount 8⟩ : Tx)) h₀
        (by decide) rfl
    have h₂ : Reachable ⟨100, 5, 150, 5⟩ 140 :=
      Runs.Reachable.step (a := (⟨1, 140, ⟨fun _ _ => true⟩, .resetRateLimitAmount 5⟩ : Tx)) h₁
        (by decide) rfl
    exact ⟨_, h₂, rfl, uses_limited.2 _ _ h₂⟩

end RateLimiter

end StatusNetwork.Security
