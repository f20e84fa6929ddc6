import StatusNetwork.Base.Books
import StatusNetwork.Yield.YieldManager

/-!
# What the calls of the yield manager do to its books

The books are the ETH of the contract, the funds of the users with each yield provider, and their
total. For each function one lemma says by how much it changes the worth of the books.
-/

namespace StatusNetwork.Yield.YieldManager

open Security (Address)
open Function (apply_update update)

variable {s₀ s s' : YieldManager}

def books (s : YieldManager) : Books Address where
  cash := s.balance
  total := s.userFundsInYieldProvidersTotal
  accounts := s.yieldProviders
  index yieldProvider := (s.yieldProviderStorage yieldProvider).yieldProviderIndex
  funds yieldProvider := (s.yieldProviderStorage yieldProvider).userFunds

/-- The worth of the books grows by what is gained, less what is lost. -/
abbrev Moves (s s' : YieldManager) (gained lost : Nat) : Prop :=
  Books.Moves 0 s.books s'.books gained lost

-- Storage

theorem register_books (s : YieldManager) (yieldProvider : Address) (data : YieldProviderStorage)
    (yieldProviders : List Address) (total : Nat) :
    books { s with
      yieldProviders
      yieldProviderStorage := update s.yieldProviderStorage yieldProvider data
      userFundsInYieldProvidersTotal := total } = { s.books with
        total
        accounts := yieldProviders
        index := update s.books.index yieldProvider data.yieldProviderIndex
        funds := update s.books.funds yieldProvider data.userFunds } := by
  simp only [books, Books.mk.injEq, true_and]
  refine ⟨funext fun a => ?_, funext fun a => ?_⟩
  · exact apply_update (fun _ => YieldProviderStorage.yieldProviderIndex) _ _ _ a
  · exact apply_update (fun _ => YieldProviderStorage.userFunds) _ _ _ a

theorem updateProvider_books (s : YieldManager) (yieldProvider : Address)
    (f : YieldProviderStorage → YieldProviderStorage) :
    (s.updateProvider yieldProvider f).books = { s.books with
      index := update s.books.index yieldProvider
        (f (s.yieldProviderStorage yieldProvider)).yieldProviderIndex
      funds := update s.books.funds yieldProvider
        (f (s.yieldProviderStorage yieldProvider)).userFunds } :=
  register_books s yieldProvider _ s.yieldProviders s.userFundsInYieldProvidersTotal

theorem updateProvider_books_same
    (hindex : ∀ data, (f data).yieldProviderIndex = data.yieldProviderIndex)
    (hfunds : ∀ data, (f data).userFunds = data.userFunds) :
    (s.updateProvider yieldProvider f).books = s.books := by
  rw [updateProvider_books, hindex, hfunds]
  simp [books]

theorem onlyKnownYieldProvider_ok (h : s.onlyKnownYieldProvider yieldProvider = .ok u) :
    s.books.index yieldProvider ≠ 0 := by
  simp only [onlyKnownYieldProvider, failIf_eq_ok, not_not] at h
  exact h

theorem delegatecall_books (h : s._delegatecallYieldProvider p yieldProvider function = .ok s') :
    s'.books = s.books := by
  simp only [_delegatecallYieldProvider, bind_eq_ok] at h
  obtain ⟨_, -, ⟨⟩⟩ := h
  exact updateProvider_books_same (fun _ => rfl) fun _ => rfl

theorem _pauseStaking_books (h : s._pauseStaking p yieldProvider = .ok s') :
    s'.books = s.books := by
  simp only [_pauseStaking, bind_eq_ok] at h
  obtain ⟨s₁, hcall, ⟨⟩⟩ := h
  exact .trans (updateProvider_books_same (fun _ => rfl) fun _ => rfl) (delegatecall_books hcall)

theorem _pauseStakingIfNotAlready_books (h : s._pauseStakingIfNotAlready p yieldProvider = .ok s') :
    s'.books = s.books := by
  unfold _pauseStakingIfNotAlready at h
  split at h
  · cases h
    rfl
  · exact _pauseStaking_books h

theorem pauseIf_books [Decidable c]
    (h : (if c then s._pauseStakingIfNotAlready p yieldProvider else .ok s) = .ok s') :
    s'.books = s.books := by
  split at h
  · exact _pauseStakingIfNotAlready_books h
  · cases h
    rfl

theorem withdrawableValue_ok (h : s.withdrawableValue p yieldProvider = .ok (s', withdrawable)) :
    s'.books = s.books ∧
      withdrawable = min p.withdrawableValue (s.books.funds yieldProvider) := by
  simp only [withdrawableValue, bind_eq_ok] at h
  obtain ⟨_, -, s₁, hcall, ⟨⟩⟩ := h
  have hbooks := delegatecall_books hcall
  rw [← hbooks]
  exact ⟨rfl, rfl⟩

-- ETH

theorem credit_moves (s : YieldManager) (amount : Nat) : Moves s (s.credit amount) amount 0 :=
  Books.moves_credit s.books amount

theorem debit_ok (h : s.debit amount = .ok s') :
    amount ≤ s.balance ∧ s' = { s with balance := s.balance - amount } := by
  simp only [debit, bind_eq_ok, failIf_eq_ok, Nat.not_lt] at h
  obtain ⟨_, hle, ⟨⟩⟩ := h
  exact ⟨hle, rfl⟩

theorem userFunds_books (s : YieldManager) (yieldProvider : Address) (userFunds total : Nat) :
    books { s.updateProvider yieldProvider fun data => { data with userFunds } with
      userFundsInYieldProvidersTotal := total } = { s.books with
        total := total
        funds := update s.books.funds yieldProvider userFunds } := by
  refine (register_books s yieldProvider _ s.yieldProviders total).trans ?_
  simp [books]

-- What a call does after calls that leave the books as they are
section
variable (hbooks : s.books = s₀.books)
include hbooks

theorem receiveEther_moves : Moves s₀ (s.receiveEther amount) amount 0 := by
  rw [Moves, ← hbooks]
  exact Books.moves_credit s.books amount

theorem debit_books (h : s.debit amount = .ok s') :
    s'.books = { s₀.books with cash := s₀.books.cash - amount } := by
  rw [← hbooks, (debit_ok h).2]
  rfl

theorem debit_moves (h : s.debit amount = .ok s') : Moves s₀ s' 0 amount := by
  obtain ⟨hle, rfl⟩ := debit_ok h
  rw [Moves, ← hbooks]
  exact Books.moves_debit hle

theorem _fundReserve_moves (h : s._fundReserve amount = .ok (s', funded)) :
    Moves s₀ s' 0 funded := by
  simp only [_fundReserve, bind_eq_ok] at h
  obtain ⟨s₁, hdebit, _, -, ⟨⟩⟩ := h
  exact debit_moves hbooks hdebit

variable (hknown : s₀.books.index yieldProvider ≠ 0)
include hknown

theorem increaseUserFunds_moves (h : s.increaseUserFunds yieldProvider amount = .ok s') :
    Moves s₀ s' amount 0 := by
  simp only [increaseUserFunds, bind_eq_ok, Checked.add_eq_ok] at h
  obtain ⟨_, ⟨-, rfl⟩, _, ⟨-, rfl⟩, ⟨⟩⟩ := h
  rw [Moves, ← hbooks, userFunds_books]
  exact Books.moves_increase (hbooks ▸ hknown)

theorem decreaseUserFunds_moves (h : s.decreaseUserFunds yieldProvider amount = .ok s') :
    Moves s₀ s' 0 amount := by
  simp only [decreaseUserFunds, bind_eq_ok, Checked.sub_eq_ok] at h
  obtain ⟨_, ⟨hle, rfl⟩, _, ⟨htotal, rfl⟩, ⟨⟩⟩ := h
  rw [Moves, ← hbooks, userFunds_books]
  exact Books.moves_decrease (hbooks ▸ hknown) hle htotal

theorem delegatecallWithdraw_moves
    (h : s._delegatecallWithdrawFromYieldProvider p yieldProvider amount = .ok s') :
    Moves s₀ s' 0 0 := by
  unfold _delegatecallWithdrawFromYieldProvider at h
  split at h
  · cases h
    exact .of_eq hbooks
  · obtain ⟨s₁, hcall, h⟩ := bind_eq_ok.mp h
    have hbooks := (delegatecall_books hcall).trans hbooks
    have hknown : (s₁.receiveEther amount).books.index yieldProvider ≠ 0 := by
      change s₁.books.index yieldProvider ≠ 0
      rwa [hbooks]
    exact ((receiveEther_moves hbooks).trans (decreaseUserFunds_moves rfl hknown h)).net (by omega)

theorem _withdrawFromYieldProvider_moves
    (h : s._withdrawFromYieldProvider reserve p yieldProvider amount = .ok (s', funded)) :
    Moves s₀ s' 0 funded := by
  simp only [_withdrawFromYieldProvider, bind_eq_ok] at h
  obtain ⟨targetDeficit, -, s₁, hwithdraw, ⟨s₂, toReserve⟩, hfund, s₃, hpause, ⟨⟩⟩ := h
  have hfunded : Moves s₁ s₂ 0 toReserve := by
    split at hfund
    · exact _fundReserve_moves rfl hfund
    · rename_i hzero
      cases hfund
      rw [Nat.eq_zero_of_not_pos hzero]
      exact .refl 0 _
  rw [Moves, pauseIf_books hpause]
  exact ((delegatecallWithdraw_moves hbooks hknown hwithdraw).trans hfunded).net (by omega)

theorem _addToWithdrawalReserve_moves
    (h : s._addToWithdrawalReserve reserve p yieldProvider amount = .ok (s', funded)) :
    Moves s₀ s' 0 funded := by
  simp only [_addToWithdrawalReserve, bind_eq_ok] at h
  obtain ⟨_, -, s₁, hpause, h⟩ := h
  have hbooks := (pauseIf_books hpause).trans hbooks
  split at h
  · exact _fundReserve_moves hbooks h
  · obtain ⟨s₂, hwithdraw, h⟩ := bind_eq_ok.mp h
    have hmoves := delegatecallWithdraw_moves hbooks hknown hwithdraw
    exact (hmoves.trans (_fundReserve_moves rfl h)).net (by omega)

end

-- Staking

theorem receiveFundsFromReserve_moves (h : s.receiveFundsFromReserve reserve e = .ok s') :
    Moves s s' e.value 0 := by
  simp only [receiveFundsFromReserve, bind_eq_ok] at h
  obtain ⟨_, -, _, -, ⟨⟩⟩ := h
  exact credit_moves s e.value

theorem transferFundsToReserve_moves (h : s.transferFundsToReserve e amount = .ok (s', funded)) :
    Moves s s' 0 funded := by
  simp only [transferFundsToReserve, bind_eq_ok] at h
  obtain ⟨_, -, _, -, h⟩ := h
  exact _fundReserve_moves rfl h

theorem fundYieldProvider_moves
    (h : s.fundYieldProvider reserve e p yieldProvider amount = .ok s') : Moves s s' 0 0 := by
  simp only [fundYieldProvider, bind_eq_ok] at h
  obtain ⟨_, -, _, hknown, _, -, _, -, _, -, s₁, hpause, s₂, hcall, s₃, hdebit, h⟩ := h
  have hbooks := (delegatecall_books hcall).trans (pauseIf_books hpause)
  have hknown : s₃.books.index yieldProvider ≠ 0 := by
    rw [debit_books hbooks hdebit]
    exact onlyKnownYieldProvider_ok hknown
  have hpaid := debit_moves hbooks hdebit
  exact (hpaid.trans (increaseUserFunds_moves rfl hknown h)).net (by omega)

theorem reportYield_moves
    (h : s.reportYield e p yieldProvider l2YieldRecipient = .ok (s', newReportedYield)) :
    newReportedYield = p.newReportedYield ∧ Moves s s' newReportedYield 0 := by
  simp only [reportYield, bind_eq_ok] at h
  obtain ⟨_, -, _, hknown, _, -, _, -, s₁, hcall, s₂, hincrease, _, -, ⟨⟩⟩ := h
  have hmoves := increaseUserFunds_moves (delegatecall_books hcall)
    (onlyKnownYieldProvider_ok hknown) hincrease
  rw [Moves, updateProvider_books_same]
  · exact ⟨rfl, hmoves⟩
  all_goals
    exact fun _ => rfl

-- Unstaking

theorem unstake_moves (h : s.unstake e p yieldProvider = .ok s') : Moves s s' 0 0 := by
  simp only [unstake, bind_eq_ok] at h
  obtain ⟨_, -, _, -, _, -, s₁, hcall, h⟩ := h
  have hmoves := debit_moves (delegatecall_books hcall) h
  exact ((credit_moves s e.value).trans hmoves).net (by omega)

theorem unstakePermissionless_moves
    (h : s.unstakePermissionless reserve e p yieldProvider validatorIndex slot = .ok s') :
    Moves s s' 0 0 := by
  simp only [unstakePermissionless, _validateAndUpdateLastProvenSlot, bind_eq_ok] at h
  obtain ⟨_, -, _, -, _, -, s₁, ⟨_, -, _, -, ⟨⟩⟩, _, -, _, -, ⟨s₂, _⟩, hvalue, _, -, _, -, _, -, s₃,
    hcall, s₄, hdebit, _, -, _, -, _, -, ⟨⟩⟩ := h
  have hbooks : s₃.books = (s.credit e.value).books :=
    (delegatecall_books hcall).trans (withdrawableValue_ok hvalue).1
  exact ((credit_moves s e.value).trans (debit_moves hbooks hdebit)).net (by omega)

theorem safeWithdrawFromYieldProvider_moves
    (h : s.safeWithdrawFromYieldProvider reserve e p yieldProvider amount = .ok (s', funded)) :
    Moves s s' 0 funded := by
  simp only [safeWithdrawFromYieldProvider, bind_eq_ok] at h
  obtain ⟨_, -, _, hknown, _, -, s₁, hbefore, ⟨s₂, _⟩, hvalue, h⟩ := h
  have hbooks := (withdrawableValue_ok hvalue).1.trans (delegatecall_books hbefore)
  exact _withdrawFromYieldProvider_moves hbooks (onlyKnownYieldProvider_ok hknown) h

theorem safeAddToWithdrawalReserve_moves
    (h : s.safeAddToWithdrawalReserve reserve e p yieldProvider amount = .ok (s', funded)) :
    Moves s s' 0 funded := by
  simp only [safeAddToWithdrawalReserve, bind_eq_ok] at h
  obtain ⟨_, -, _, hknown, _, -, s₁, hbefore, ⟨s₂, _⟩, hvalue, _, -, h⟩ := h
  have hbooks := (withdrawableValue_ok hvalue).1.trans (delegatecall_books hbefore)
  exact _addToWithdrawalReserve_moves hbooks (onlyKnownYieldProvider_ok hknown) h

theorem replenishWithdrawalReserve_moves
    (h : s.replenishWithdrawalReserve reserve p yieldProvider = .ok (s', funded)) :
    Moves s s' 0 funded := by
  simp only [replenishWithdrawalReserve, bind_eq_ok] at h
  obtain ⟨_, -, _, hknown, _, -, targetDeficit, -, h⟩ := h
  split at h
  · exact _fundReserve_moves rfl h
  · simp only [bind_eq_ok] at h
    obtain ⟨s₁, hbefore, ⟨s₂, _⟩, hvalue, _, -, s₃, hwithdraw, ⟨s₄, _⟩, hfund, s₅, hpause, ⟨⟩⟩ := h
    have hbooks := (withdrawableValue_ok hvalue).1.trans (delegatecall_books hbefore)
    have hmoves := delegatecallWithdraw_moves hbooks (onlyKnownYieldProvider_ok hknown) hwithdraw
    rw [Moves, pauseIf_books hpause]
    exact (hmoves.trans (_fundReserve_moves rfl hfund)).net (by omega)

-- Pausing, liquid staking tokens and ossification

theorem pauseStaking_books (h : s.pauseStaking e p yieldProvider = .ok s') :
    s'.books = s.books := by
  simp only [pauseStaking, bind_eq_ok] at h
  obtain ⟨_, -, _, -, _, -, h⟩ := h
  exact _pauseStaking_books h

theorem unpauseStaking_books (h : s.unpauseStaking reserve e p yieldProvider = .ok s') :
    s'.books = s.books := by
  simp only [unpauseStaking, bind_eq_ok] at h
  obtain ⟨_, -, _, -, _, -, _, -, s₁, hsync, _, -, _, -, s₂, hcall, ⟨⟩⟩ := h
  exact .trans (updateProvider_books_same (fun _ => rfl) fun _ => rfl)
    ((delegatecall_books hcall).trans (delegatecall_books hsync))

theorem withdrawLST_moves (h : s.withdrawLST e p allowed yieldProvider amount = .ok s') :
    Moves s s' 0 amount := by
  simp only [withdrawLST, bind_eq_ok] at h
  obtain ⟨_, -, _, hknown, _, -, _, -, _, -, _, -, s₁, hpause, s₂, hcall, s₃, hdecrease, _, -,
    ⟨⟩⟩ := h
  have hbooks := (delegatecall_books hcall).trans (_pauseStakingIfNotAlready_books hpause)
  have hmoves := decreaseUserFunds_moves hbooks (onlyKnownYieldProvider_ok hknown) hdecrease
  rw [Moves, updateProvider_books_same]
  · exact hmoves
  all_goals
    exact fun _ => rfl

theorem initiateOssification_books (h : s.initiateOssification e p yieldProvider = .ok s') :
    s'.books = s.books := by
  simp only [initiateOssification, bind_eq_ok] at h
  obtain ⟨_, -, _, -, _, -, _, -, s₁, hcall, s₂, hpause, ⟨⟩⟩ := h
  exact .trans (updateProvider_books_same (fun _ => rfl) fun _ => rfl)
    ((_pauseStakingIfNotAlready_books hpause).trans (delegatecall_books hcall))

theorem progressPendingOssification_books
    (h : s.progressPendingOssification e p yieldProvider = .ok s') : s'.books = s.books := by
  simp only [progressPendingOssification, bind_eq_ok] at h
  obtain ⟨_, -, _, -, _, -, _, -, s₁, hcall, ⟨⟩⟩ := h
  have hbooks := delegatecall_books hcall
  split
  · exact .trans (updateProvider_books_same (fun _ => rfl) fun _ => rfl) hbooks
  · exact hbooks

-- Administration

theorem addYieldProvider_moves (hlength : s.yieldProviders.length < 2 ^ 96)
    (h : s.addYieldProvider e p yieldProvider = .ok s') : Moves s s' 0 0 := by
  simp only [addYieldProvider, revertIfZeroAddress, bind_eq_ok, failIf_eq_ok,
    Checked.add_eq_ok] at h
  obtain ⟨_, -, _, hzero, _, hunknown, s₁, hcall, s₂, hdebit, _, ⟨-, rfl⟩, ⟨⟩⟩ := h
  have hbooks := delegatecall_books hcall
  have hpaid := debit_moves hbooks hdebit
  have hdebited := debit_books hbooks hdebit
  have hunknown : s₂.books.index yieldProvider = 0 := by
    rw [hdebited]
    exact not_not.mp hunknown
  have hindex : s₂.yieldProviders.length % 2 ^ 96 = s₂.books.accounts.length := by
    have haccounts : s₂.yieldProviders = s.yieldProviders := congrArg Books.accounts hdebited
    rw [← haccounts] at hlength
    exact Nat.mod_eq_of_lt hlength
  rw [Moves, register_books, hindex]
  have hadded := Books.moves_add (n := p.registrationData.usersFundsIncrement) hzero
    hunknown
  exact (hpaid.trans hadded).net (by omega)

theorem moveProvider_books (s : YieldManager) (yieldProvider : Address) (yieldProviderIndex : Nat) :
    (s.updateProvider yieldProvider fun data => { data with yieldProviderIndex }).books =
      { s.books with index := update s.books.index yieldProvider yieldProviderIndex } := by
  rw [updateProvider_books]
  simp [books]

theorem _removeYieldProvider_books (h : s._removeYieldProvider p yieldProvider userFunds = .ok s') :
    ∃ last, s.books.accounts.getLast? = some last ∧ s'.books = { s.books with
      total := s.books.total - userFunds
      accounts := Registry.remove s.books.accounts (s.books.index yieldProvider) last
      index := update (update s.books.index last (s.books.index yieldProvider)) yieldProvider 0
      funds := update s.books.funds yieldProvider 0 } := by
  simp only [_removeYieldProvider, bind_eq_ok, Checked.sub_eq_ok] at h
  obtain ⟨s₁, hcall, _, ⟨-, rfl⟩, _, -, h⟩ := h
  rw [← delegatecall_books hcall]
  split at h
  · cases h
  · rename_i last hlast
    cases h
    let yieldProviderIndex := s₁.books.index yieldProvider
    let s₂ := s₁.updateProvider last fun data => { data with yieldProviderIndex }
    have hmoved : s₂.books = _ := moveProvider_books s₁ last yieldProviderIndex
    refine ⟨last, hlast, (register_books s₂ yieldProvider .empty _ _).trans ?_⟩
    rw [hmoved]
    rfl

theorem removeYieldProvider_moves (h : s.removeYieldProvider e p yieldProvider = .ok s') :
    Moves s s' 0 0 := by
  simp only [removeYieldProvider, bind_eq_ok, failIf_eq_ok, not_not] at h
  obtain ⟨_, hknown, _, -, _, hfunds, h⟩ := h
  obtain ⟨last, hlast, hbooks⟩ := _removeYieldProvider_books h
  rw [Moves, hbooks, hfunds]
  exact Books.moves_remove (onlyKnownYieldProvider_ok hknown) hfunds hlast

theorem addL2YieldRecipient_books (h : s.addL2YieldRecipient e l2YieldRecipient = .ok s') :
    s'.books = s.books := by
  simp only [addL2YieldRecipient, bind_eq_ok] at h
  obtain ⟨_, -, _, -, _, -, ⟨⟩⟩ := h
  rfl

theorem removeL2YieldRecipient_books (h : s.removeL2YieldRecipient e l2YieldRecipient = .ok s') :
    s'.books = s.books := by
  simp only [removeL2YieldRecipient, bind_eq_ok] at h
  obtain ⟨_, -, _, -, ⟨⟩⟩ := h
  rfl

theorem setWithdrawalReserveParameters_books
    (h : s.setWithdrawalReserveParameters e params = .ok s') : s'.books = s.books := by
  simp only [setWithdrawalReserveParameters, _setWithdrawalReserveParameters, bind_eq_ok] at h
  obtain ⟨_, -, _, -, _, -, _, -, ⟨⟩⟩ := h
  rfl

theorem secure_books (h : s.secure e action = .ok s') : s'.books = s.books := by
  obtain ⟨_, -, rfl⟩ := map_eq_ok.mp h
  rfl

theorem initialized_balanced (h : initialized address service held data = .ok s) :
    s.books.Balanced 0 := by
  simp only [initialized, _setWithdrawalReserveParameters, bind_eq_ok] at h
  obtain ⟨_, -, _, -, _, -, s₁, ⟨_, -, _, -, _, -, ⟨⟩⟩, _, -, ⟨⟩⟩ := h
  exact ⟨Registry.indexed_singleton 0, rfl⟩

-- Calls

/-- A call that is no emergency, with room in the 96 bits of the index for a new provider. -/
def Routine (s : YieldManager) : Call → Prop
  | .emergencyRemoveYieldProvider _ => False
  | .addYieldProvider _ => s.yieldProviders.length < 2 ^ 96
  | _ => True

instance (c : Call) : Decidable (s.Routine c) := by
  cases c <;> dsimp only [Routine] <;> infer_instance

section
variable (h : unfunded result = .ok (s', funded))
include h

theorem unfunded_ok : result = .ok s' ∧ funded = 0 := by
  obtain ⟨_, hok, ⟨⟩⟩ := map_eq_ok.mp h
  exact ⟨hok, rfl⟩

theorem unfunded_moves (hmoves : ∀ s', result = .ok s' → Moves s s' gained 0) :
    ∃ gained, Moves s s' gained funded := by
  obtain ⟨hok, rfl⟩ := unfunded_ok h
  exact ⟨gained, hmoves s' hok⟩

theorem unfunded_keeps (hbooks : ∀ s', result = .ok s' → s'.books = s.books) :
    ∃ gained, Moves s s' gained funded :=
  unfunded_moves h fun s' hok => .of_eq (hbooks s' hok)

end

theorem call_moves (hroutine : s.Routine c) (h : s.call reserve e p false c = .ok (s', funded)) :
    ∃ gained, Moves s s' gained funded := by
  cases c with
  | secure => exact unfunded_keeps h fun _ => secure_books
  | receiveEther =>
    cases h
    exact ⟨e.value, receiveEther_moves rfl⟩
  | receiveFundsFromReserve => exact unfunded_moves h fun _ => receiveFundsFromReserve_moves
  | transferFundsToReserve => exact ⟨0, transferFundsToReserve_moves h⟩
  | fundYieldProvider => exact unfunded_moves h fun _ => fundYieldProvider_moves
  | unstake => exact unfunded_moves h fun _ => unstake_moves
  | unstakePermissionless => exact unfunded_moves h fun _ => unstakePermissionless_moves
  | safeWithdrawFromYieldProvider => exact ⟨0, safeWithdrawFromYieldProvider_moves h⟩
  | safeAddToWithdrawalReserve => exact ⟨0, safeAddToWithdrawalReserve_moves h⟩
  | replenishWithdrawalReserve => exact ⟨0, replenishWithdrawalReserve_moves h⟩
  | pauseStaking => exact unfunded_keeps h fun _ => pauseStaking_books
  | unpauseStaking => exact unfunded_keeps h fun _ => unpauseStaking_books
  | withdrawLST =>
    obtain ⟨hok, rfl⟩ := unfunded_ok h
    simp [withdrawLST, bind_eq_ok] at hok
  | initiateOssification => exact unfunded_keeps h fun _ => initiateOssification_books
  | progressPendingOssification => exact unfunded_keeps h fun _ => progressPendingOssification_books
  | addYieldProvider => exact unfunded_moves h fun _ => addYieldProvider_moves hroutine
  | removeYieldProvider => exact unfunded_moves h fun _ => removeYieldProvider_moves
  | emergencyRemoveYieldProvider => exact hroutine.elim
  | addL2YieldRecipient => exact unfunded_keeps h fun _ => addL2YieldRecipient_books
  | removeL2YieldRecipient => exact unfunded_keeps h fun _ => removeL2YieldRecipient_books
  | setWithdrawalReserveParameters =>
    exact unfunded_keeps h fun _ => setWithdrawalReserveParameters_books

end StatusNetwork.Yield.YieldManager
