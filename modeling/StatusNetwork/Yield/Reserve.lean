import StatusNetwork.Yield.Principal

/-!
# Rebalancing the withdrawal reserve

The functions that move ETH between the reserve, the yield manager and the yield providers leave
the total system balance as it is, from any state. The effective minimum and target of the reserve
depend on nothing but this total and the parameters, so what a function checks before it moves ETH
still holds after.
-/

namespace StatusNetwork.Yield


namespace YieldManager

variable {s s' : YieldManager} {e : Messaging.Env} {p : ProviderEnv}

abbrev SameParams (s s' : YieldManager) : Prop :=
  s'.toUpdateReserveParametersConfig = s.toUpdateReserveParametersConfig

theorem delegatecall_params (h : s._delegatecallYieldProvider p yieldProvider function = .ok s') :
    SameParams s s' := by
  simp only [_delegatecallYieldProvider, bind_eq_ok] at h
  obtain ⟨_, -, ⟨⟩⟩ := h
  rfl

theorem _pauseStakingIfNotAlready_ok
    (h : s._pauseStakingIfNotAlready p yieldProvider = .ok s') : SameParams s s' ∧
      (s'.yieldProviderStorage yieldProvider).isStakingPaused = true := by
  unfold _pauseStakingIfNotAlready at h
  split at h
  · rename_i hpaused
    cases h
    exact ⟨rfl, hpaused⟩
  · simp only [_pauseStaking, bind_eq_ok] at h
    obtain ⟨s₁, hcall, ⟨⟩⟩ := h
    have hparams := delegatecall_params hcall
    exact ⟨hparams, by simp [updateProvider]⟩

theorem pauseIf_params [Decidable c]
    (h : (if c then s._pauseStakingIfNotAlready p yieldProvider else .ok s) = .ok s') :
    SameParams s s' := by
  split at h
  · exact (_pauseStakingIfNotAlready_ok h).1
  · cases h
    rfl

theorem _fundReserve_ok (h : s._fundReserve amount = .ok (s', funded)) :
    funded = amount ∧ s' = { s with balance := s.balance - amount } := by
  simp only [_fundReserve, bind_eq_ok] at h
  obtain ⟨s₁, hdebit, _, -, ⟨⟩⟩ := h
  exact ⟨rfl, (debit_ok hdebit).2⟩

theorem withdrawableValue_params
    (h : s.withdrawableValue p yieldProvider = .ok (s', withdrawable)) : SameParams s s' := by
  simp only [withdrawableValue, bind_eq_ok] at h
  obtain ⟨_, -, s₁, hcall, ⟨⟩⟩ := h
  exact delegatecall_params hcall

theorem delegatecallWithdraw_ok
    (h : s._delegatecallWithdrawFromYieldProvider p yieldProvider amount = .ok s') :
    SameParams s s' ∧ s'.balance = s.balance + amount ∧
      s'.books.funds yieldProvider + amount = s.books.funds yieldProvider := by
  unfold _delegatecallWithdrawFromYieldProvider at h
  split at h
  · rename_i hzero
    cases h
    exact ⟨rfl, by simp [hzero], by simp [hzero]⟩
  · simp only [decreaseUserFunds, bind_eq_ok, Checked.sub_eq_ok] at h
    obtain ⟨s₁, hcall, _, ⟨hfunds, rfl⟩, _, -, ⟨⟩⟩ := h
    have hbooks := delegatecall_books hcall
    have hbalance : s₁.balance = s.balance := congrArg Books.cash hbooks
    have hparams := delegatecall_params hcall
    refine ⟨hparams, congrArg (· + amount) hbalance, ?_⟩
    rw [userFunds_books]
    simp only [Function.update_self, ← hbooks]
    exact Nat.sub_add_cancel hfunds

-- The effective reserves

theorem _getTotalSystemBalance_eq (s : YieldManager) (reserve : Nat) :
    s._getTotalSystemBalance reserve 0 =
      add (reserve + s.balance + s.userFundsInYieldProvidersTotal) 0 := by
  unfold _getTotalSystemBalance
  by_cases h : reserve + s.balance + s.userFundsInYieldProvidersTotal < Checked.size
  · simp [Checked.add, Checked.sub, h, show reserve + s.balance < Checked.size by omega]
  · by_cases h' : reserve + s.balance < Checked.size
    all_goals
      simp [Checked.add, h, h']

/-- The effective reserves depend on the total system balance only. -/
theorem effectiveReserve_congr (h : reserve' + s'.balance + s'.userFundsInYieldProvidersTotal =
      reserve + s.balance + s.userFundsInYieldProvidersTotal) (percentageBps amount : Nat) :
    s'.effectiveReserve reserve' percentageBps amount 0 =
      s.effectiveReserve reserve percentageBps amount 0 := by
  rw [effectiveReserve, effectiveReserve, _getTotalSystemBalance_eq, _getTotalSystemBalance_eq, h]

theorem effectiveReserve_le (hm : s.effectiveReserve reserve b a 0 = .ok m)
    (ht : s.effectiveReserve reserve b' a' 0 = .ok t) (hb : b ≤ b') (ha : a ≤ a') : m ≤ t := by
  simp only [effectiveReserve, bind_eq_ok, Checked.mul_eq_ok, Except.ok.injEq] at hm ht
  obtain ⟨total, htotal, _, ⟨-, rfl⟩, rfl⟩ := hm
  obtain ⟨_, htotal', _, ⟨-, rfl⟩, rfl⟩ := ht
  cases htotal.symm.trans htotal'
  exact max_le_max (Nat.div_le_div_right (Nat.mul_le_mul_left total hb)) ha

/-- The parameters are such as `_setWithdrawalReserveParameters` accepts. -/
def Accepted (s : YieldManager) : Prop :=
  s._setWithdrawalReserveParameters s.toUpdateReserveParametersConfig = .ok s

theorem minimum_le_target (haccepted : s.Accepted)
    (hm : s._getEffectiveMinimumWithdrawalReserve reserve 0 = .ok m)
    (ht : s._getEffectiveTargetWithdrawalReserve reserve 0 = .ok t) : m ≤ t := by
  simp only [Accepted, _setWithdrawalReserveParameters, bind_eq_ok, failIf_eq_ok,
    not_le] at haccepted
  obtain ⟨_, -, _, hbps, _, hamount, -⟩ := haccepted
  exact effectiveReserve_le hm ht hbps.le hamount.le

theorem healthy_ok (h : s.onlyWhenWithdrawalReserveHealthy reserve = .ok u) :
    ∃ m, s._getEffectiveMinimumWithdrawalReserve reserve 0 = .ok m ∧ m ≤ reserve := by
  simp only [onlyWhenWithdrawalReserveHealthy, _isWithdrawalReserveBelowMinimum,
    bind_eq_ok, failIf_eq_ok] at h
  obtain ⟨_, ⟨m, hm, ⟨⟩⟩, hle⟩ := h
  exact ⟨m, hm, by simpa using hle⟩

theorem inDeficit_ok (h : s.onlyWhenWithdrawalReserveInDeficit reserve 0 = .ok u) :
    ∃ m, s._getEffectiveMinimumWithdrawalReserve reserve 0 = .ok m ∧ reserve < m := by
  simp only [onlyWhenWithdrawalReserveInDeficit, _isWithdrawalReserveBelowMinimum,
    bind_eq_ok, failIf_eq_ok] at h
  obtain ⟨_, ⟨m, hm, ⟨⟩⟩, hlt⟩ := h
  exact ⟨m, hm, by simpa using hlt⟩

-- The functions

theorem fundYieldProvider_ok
    (h : s.fundYieldProvider reserve e p yieldProvider amount = .ok s') : SameParams s s' ∧
      ∃ m, s._getEffectiveMinimumWithdrawalReserve reserve 0 = .ok m ∧ m ≤ reserve := by
  simp only [fundYieldProvider, increaseUserFunds, bind_eq_ok] at h
  obtain ⟨_, -, _, -, _, -, _, hhealthy, _, -, s₁, hpause, s₂, hcall, s₃, hdebit, _, -, _, -,
    ⟨⟩⟩ := h
  obtain ⟨-, rfl⟩ := debit_ok hdebit
  exact ⟨(delegatecall_params hcall).trans (pauseIf_params hpause), healthy_ok hhealthy⟩

theorem replenishWithdrawalReserve_ok (haccepted : s.Accepted)
    (h : s.replenishWithdrawalReserve reserve p yieldProvider = .ok (s', funded)) :
    SameParams s s' ∧
      (s._getEffectiveTargetWithdrawalReserve reserve 0 = .ok (reserve + funded) ∨
        s'.balance = 0 ∧
        (∃ withdrawn, s'.books.funds yieldProvider + withdrawn = s.books.funds yieldProvider ∧
          min (p.withdrawableValue - withdrawn) (s'.books.funds yieldProvider) = 0) ∧
        (s'.yieldProviderStorage yieldProvider).isStakingPaused = true) := by
  simp only [replenishWithdrawalReserve, _getTargetReserveDeficit, bind_eq_ok] at h
  obtain ⟨_, -, _, -, _, hdeficit, _, ⟨target, htarget, ⟨⟩⟩, h⟩ := h
  obtain ⟨minimum, hminimum, hlt⟩ := inDeficit_ok hdeficit
  have hle := minimum_le_target haccepted hminimum htarget
  split at h
  · obtain ⟨rfl, rfl⟩ := _fundReserve_ok h
    refine ⟨rfl, .inl ?_⟩
    rw [htarget]
    congr 1
    omega
  · simp only [bind_eq_ok] at h
    obtain ⟨s₁, hbefore, ⟨s₂, available⟩, hvalue, _, -, s₃, hwithdraw, ⟨s₄, _⟩, hfund, s₅, hpause,
      ⟨⟩⟩ := h
    obtain ⟨hmoved, hbalance₃, hfunds₃⟩ := delegatecallWithdraw_ok hwithdraw
    dsimp only at hbalance₃ hfunds₃
    obtain ⟨rfl, rfl⟩ := _fundReserve_ok hfund
    refine ⟨(pauseIf_params hpause).trans (hmoved.trans
      ((withdrawableValue_params hvalue).trans (delegatecall_params hbefore))), ?_⟩
    obtain ⟨hbooks, havailable⟩ := withdrawableValue_ok hvalue
    rw [delegatecall_books hbefore] at hbooks havailable
    have hcash : s₂.balance = s.balance := congrArg Books.cash hbooks
    by_cases hleft : target - reserve - s.balance > available
    · rw [if_pos hleft] at hpause
      have hsame := _pauseStakingIfNotAlready_books hpause
      have hfunds : s'.books.funds yieldProvider + available = s.books.funds yieldProvider := by
        rw [← hbooks, ← hfunds₃, hsame, Nat.min_eq_left hleft.le]
        rfl
      have hzero : s'.balance = s₃.balance - _ := congrArg Books.cash hsame
      refine .inr ⟨by omega, ⟨available, hfunds, ?_⟩, (_pauseStakingIfNotAlready_ok hpause).2⟩
      omega
    · left
      rw [htarget]
      congr 1
      omega

end YieldManager

-- The system

namespace NativeYield

open Rollup (Hashing)

variable {D : Type} [DecidableEq D] [Zero D] {H : Hashing D} {s s' : NativeYield D}

def totalSystemBalance (s : NativeYield D) : Nat :=
  s.rollup.balance + s.manager.balance + s.manager.userFundsInYieldProvidersTotal

/-- The functions that move ETH between the reserve and the yield providers. -/
inductive Rebalances : Action D → Prop
  | fundYieldProvider : Rebalances (.manager e p (.fundYieldProvider yieldProvider amount))
  | safeWithdraw : Rebalances (.manager e p (.safeWithdrawFromYieldProvider yieldProvider amount))
  | safeAdd : Rebalances (.manager e p (.safeAddToWithdrawalReserve yieldProvider amount))
  | replenish : Rebalances (.manager e p (.replenishWithdrawalReserve yieldProvider))
  | transferFundsToReserve : Rebalances (.manager e p (.transferFundsToReserve amount))
  | transferFundsForNativeYield : Rebalances (.transferFundsForNativeYield e amount)

theorem manager_ok (h : s.apply H (.manager e p call) = .ok s') :
    ∃ funded, s.manager.call s.rollup.balance e p s.rollup.isWithdrawLSTAllowed call =
        .ok (s'.manager, funded) ∧ s'.rollup.balance = s.rollup.balance + funded := by
  simp only [apply, bind_eq_ok, mapError_eq_ok] at h
  obtain ⟨⟨manager, funded⟩, hmanager, r, hfund, ⟨⟩⟩ := h
  obtain rfl := fund_ok hfund
  exact ⟨funded, hmanager, rfl⟩

omit [DecidableEq D] [Zero D] in
theorem total_eq (hmoves : s.manager.Moves s'.manager 0 funded)
    (hreserve : s'.rollup.balance = s.rollup.balance + funded) :
    s'.totalSystemBalance = s.totalSystemBalance := by
  have hworth := hmoves.worth_eq
  simp only [Books.worth, YieldManager.books] at hworth
  simp only [totalSystemBalance]
  omega

omit [DecidableEq D] [Zero D] in
theorem effective_eq (htotal : s'.totalSystemBalance = s.totalSystemBalance)
    (hparams : s.manager.SameParams s'.manager) :
    s'.manager._getEffectiveMinimumWithdrawalReserve s'.rollup.balance 0 =
        s.manager._getEffectiveMinimumWithdrawalReserve s.rollup.balance 0 ∧
      s'.manager._getEffectiveTargetWithdrawalReserve s'.rollup.balance 0 =
        s.manager._getEffectiveTargetWithdrawalReserve s.rollup.balance 0 := by
  simp only [YieldManager._getEffectiveMinimumWithdrawalReserve,
    YieldManager._getEffectiveTargetWithdrawalReserve, hparams]
  exact ⟨YieldManager.effectiveReserve_congr htotal _ _,
    YieldManager.effectiveReserve_congr htotal _ _⟩

/-- Rebalancing keeps the total system balance. Replenishing brings the reserve to its target, or
leaves nothing to bring there and pauses staking. What is staked leaves the minimum in the
reserve. -/
theorem reserve_rebalanced (haccepted : s.manager.Accepted) (ha : Rebalances a)
    (h : s.apply H a = .ok s') :
    s'.totalSystemBalance = s.totalSystemBalance ∧
    (∀ e p yieldProvider, a = .manager e p (.replenishWithdrawalReserve yieldProvider) →
      s'.manager._getEffectiveTargetWithdrawalReserve s'.rollup.balance 0 =
        .ok s'.rollup.balance ∨
      s'.manager.balance = 0 ∧
      (∃ withdrawn, (s'.manager.yieldProviderStorage yieldProvider).userFunds + withdrawn =
          (s.manager.yieldProviderStorage yieldProvider).userFunds ∧
        min (p.withdrawableValue - withdrawn)
          (s'.manager.yieldProviderStorage yieldProvider).userFunds = 0) ∧
      (s'.manager.yieldProviderStorage yieldProvider).isStakingPaused = true) ∧
    ((∃ e p yieldProvider amount, a = .manager e p (.fundYieldProvider yieldProvider amount)) ∨
        (∃ e amount, a = .transferFundsForNativeYield e amount) →
      ∃ minimum, s'.manager._getEffectiveMinimumWithdrawalReserve s'.rollup.balance 0 =
        .ok minimum ∧ minimum ≤ s'.rollup.balance) := by
  cases ha with
  | fundYieldProvider =>
    obtain ⟨funded, hcall, hreserve⟩ := manager_ok h
    obtain ⟨hfund, rfl⟩ := YieldManager.unfunded_ok hcall
    obtain ⟨hparams, minimum, hminimum, hle⟩ := YieldManager.fundYieldProvider_ok hfund
    have htotal := total_eq (YieldManager.fundYieldProvider_moves hfund) hreserve
    refine ⟨htotal, by simp, fun _ => ⟨minimum, ?_, by omega⟩⟩
    rw [(effective_eq htotal hparams).1, hminimum]
  | safeWithdraw =>
    obtain ⟨funded, hcall, hreserve⟩ := manager_ok h
    have hmoves := YieldManager.safeWithdrawFromYieldProvider_moves hcall
    exact ⟨total_eq hmoves hreserve, by simp, by rintro (⟨_, _, _, _, ⟨⟩⟩ | ⟨_, _, ⟨⟩⟩)⟩
  | safeAdd =>
    obtain ⟨funded, hcall, hreserve⟩ := manager_ok h
    have hmoves := YieldManager.safeAddToWithdrawalReserve_moves hcall
    exact ⟨total_eq hmoves hreserve, by simp, by rintro (⟨_, _, _, _, ⟨⟩⟩ | ⟨_, _, ⟨⟩⟩)⟩
  | replenish =>
    obtain ⟨funded, hcall, hreserve⟩ := manager_ok h
    obtain ⟨hparams, hends⟩ := YieldManager.replenishWithdrawalReserve_ok haccepted hcall
    have htotal := total_eq (YieldManager.replenishWithdrawalReserve_moves hcall) hreserve
    refine ⟨htotal, ?_, by rintro (⟨_, _, _, _, ⟨⟩⟩ | ⟨_, _, ⟨⟩⟩)⟩
    rintro _ _ _ ⟨⟩
    rw [(effective_eq htotal hparams).2, hreserve]
    exact hends
  | transferFundsToReserve =>
    obtain ⟨funded, hcall, hreserve⟩ := manager_ok h
    have hmoves := YieldManager.transferFundsToReserve_moves hcall
    exact ⟨total_eq hmoves hreserve, by simp, by rintro (⟨_, _, _, _, ⟨⟩⟩ | ⟨_, _, ⟨⟩⟩)⟩
  | transferFundsForNativeYield =>
    simp only [apply, YieldManager.receiveFundsFromReserve, bind_eq_ok, mapError_eq_ok] at h
    obtain ⟨r, hcall, _, ⟨_, -, _, hhealthy, ⟨⟩⟩, ⟨⟩⟩ := h
    obtain ⟨hbalance, rfl⟩ := transferFunds_ok hcall
    refine ⟨?_, by simp, fun _ => YieldManager.healthy_ok hhealthy⟩
    simp only [totalSystemBalance, YieldManager.credit]
    omega

def shortReserve : NativeYield Rollup.Word :=
  let s := ((sampleActions.take 3).foldlM (apply Rollup.symbolic) deployed).toOption.get rfl
  { s with
    manager.minimumWithdrawalReserveAmount := 5
    manager.targetWithdrawalReserveAmount := 12 }

theorem reserve_rebalanced_replenished : ∃ s', shortReserve.apply Rollup.symbolic
      (.manager ⟨3, 0, 1, by decide⟩ sampleProvider (.replenishWithdrawalReserve 9)) = .ok s' ∧
    s'.totalSystemBalance = 40 ∧ s'.rollup.balance = 12 ∧
    s'.manager._getEffectiveTargetWithdrawalReserve s'.rollup.balance 0 = .ok 12 := by
  have hrun : (shortReserve.apply Rollup.symbolic
      (.manager ⟨3, 0, 1, by decide⟩ sampleProvider (.replenishWithdrawalReserve 9))).map
        (fun s' => (s'.rollup.balance, s'.manager.balance)) = .ok (12, 18) := by decide +kernel
  obtain ⟨s', hs', hobserved⟩ := map_eq_ok.mp hrun
  simp only [Prod.mk.injEq] at hobserved
  have haccepted : shortReserve.manager.Accepted := rfl
  obtain ⟨htotal, hends, -⟩ := reserve_rebalanced haccepted .replenish hs'
  refine ⟨s', hs', htotal, hobserved.1, ?_⟩
  obtain htarget | ⟨hzero, -⟩ := hends _ _ _ rfl
  · rw [htarget, hobserved.1]
  · simp [hobserved.2] at hzero

end NativeYield

end StatusNetwork.Yield
