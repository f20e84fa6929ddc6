import StatusNetwork.Reputation.System
import StatusNetwork.Reputation.TokenLaws

/-!
# Voting power

In every run the votes of a delegate are the actual tokens of the accounts that delegate to
it, and as long as the clock can tell the time, the checkpoints answer what the votes and the
supply were at any time of the past.
-/

namespace StatusNetwork.Reputation

open Checkpoints (latest)
open Except (Fails)
open Karma (Covered Pays)
open Staking (Address StakeManager)
open Token (single Continues)

namespace Karma

variable {s : Karma}

theorem slashActual_continues (h : s.Sound) (hs : s.slashActual env account recipient = .ok s') :
    Continues env.now s.toToken s'.toToken := by
  simp only [slashActual, bind_eq_ok] at hs
  obtain ⟨-, -, amount, -, reward, -, s₁, hburn, hs⟩ := hs
  have hburned := (burnTokens_pays h hburn).continues
  split at hs
  · exact hburned.trans (mintTokens_pays hburned.sound hs).continues
  · cases hs
    exact hburned

theorem slashActual_fails (h : s.Sound) : Fails Covered (s.slashActual env account recipient) := by
  refine .guard (by simp) <| .bind (.bind ?_ fun _ _ => .ok _) fun _ _ =>
    .bind ?_ fun _ _ => .bind (burnTokens_fails h) fun s₁ hburn => .ite (fun _ => ?_) fun _ => .ok _
  · exact Checked.mulDiv_fails fun _ => by simp
  · exact Checked.mulDiv_fails fun _ => by simp
  · exact mintTokens_fails (burnTokens_pays h hburn).continues.sound

end Karma

namespace Distributor

theorem call_fails (d : Distributor) (c : Call) : Fails Covered (d.call sender now c) := by
  have hmanager (s : StakeManager) (msg : Staking.Msg) (c : StakeManager.Call) :
      Fails Covered (callStakeManager s msg c) := by
    refine .bind (.mapError (by simp)) fun ⟨_, _⟩ _ => ?_
    cases c <;> exact .ok _
  have hadd (a b : Nat) : Fails Covered (add a b) := Checked.add_fails fun _ => by simp
  have hsub (a b : Nat) : Fails Covered (sub a b) := Checked.sub_fails fun _ => by simp
  cases d with
  | stakeManager s =>
    cases c with
    | setReward | redeemRewards | stakeManager => exact hmanager _ _ _
    | setRewardsSupplier | setRole | mint => exact .error (by simp)
  | simple s =>
    cases c with
    | setReward =>
      exact .map (.guard (by simp) <| .guard (by simp) <|
        .bind (hadd _ _) fun _ _ => .ok _)
    | redeemRewards =>
      exact .map (.ite (fun _ => .ok _) fun _ => .bind (hsub _ _) fun _ _ => .ok _)
    | stakeManager => exact .error (by simp)
    | setRewardsSupplier =>
      exact .map (.guard (by simp) <| .guard (by simp) <| .ok _)
    | setRole => exact .map (.guard (by simp) <| .ok _)
    | mint =>
      exact .map (.guard (by simp) <| .guard (by simp) <|
        .guard (by simp) <| .guard (by simp) <|
          .bind (hadd _ _) fun _ _ => .bind (hadd _ _) fun _ _ => .bind (hsub _ _) fun _ _ => .ok _)

end Distributor

namespace System

/-- What a transaction does, apart from what a call of a distributor does. -/
inductive Done (w : System) : Tx → System → Prop
  | slash : w.slash env sender account recipient = .ok w' →
      Done w ⟨sender, env, .slash account recipient⟩ w'
  | setReward : w.setReward env sender d amount duration = .ok w' →
      Done w ⟨sender, env, .setReward d amount duration⟩ w'
  | callDistributor : w.callDistributor env sender d c = .ok w' →
      Done w ⟨sender, env, .callDistributor d c⟩ w'
  | pays : Pays tx.now out paid w.karma k → (∀ d, out d ≠ 0 → d = tx.sender) →
      k.totalSupply ≤ max w.karma.totalSupply maxSupply → Done w tx { w with karma := k }
  | remove : d ∈ w.karma.rewardDistributors →
      w.karma.burnTokens env d (w.karma.balances d) = .ok k →
      list = (k.rewardDistributors.set (k.rewardDistributors.idxOf d)
        (k.rewardDistributors.getLastD 0)).dropLast →
      Done w ⟨sender, env, .removeRewardDistributor d⟩
        { w with karma := { k with rewardDistributors := list } }
  | settings : k.toToken = w.karma.toToken →
      (k.rewardDistributors = w.karma.rewardDistributors ∨ ∃ d ∉ w.karma.rewardDistributors,
        k.rewardDistributors = w.karma.rewardDistributors ++ [d]) →
      k.slashPercentage ≤ max w.karma.slashPercentage MAX_SLASH_PERCENTAGE →
      k.slashRewardPercentage ≤ max w.karma.slashRewardPercentage MAX_SLASH_PERCENTAGE →
      Done w tx { w with karma := k }

variable {w w' : System}

-- One transaction

theorem distributorAt_fails : Fails Covered (w.distributorAt d) := by
  unfold distributorAt
  split
  · exact .ok _
  · exact .error (by simp)

section
variable (h : w.karma.Sound)
include h

theorem callDistributor_continues (hs : w.callDistributor env sender d c = .ok w') :
    Continues env.now w.karma.toToken w'.karma.toToken := by
  simp only [callDistributor, bind_eq_ok] at hs
  obtain ⟨_, -, ⟨_, payment⟩, -, hs⟩ := hs
  cases payment with
  | none =>
    cases hs
    exact .refl h
  | some p =>
    obtain ⟨karma, htransfer, ⟨⟩⟩ := bind_eq_ok.mp hs
    exact (Karma.transfer_pays h htransfer).1.continues

theorem callDistributor_fails : Fails Covered (w.callDistributor env sender d c) := by
  refine .bind distributorAt_fails fun distributor _ =>
    .bind (distributor.call_fails c) fun ⟨_, payment⟩ _ => ?_
  cases payment with
  | some p => exact .bind (Karma.transfer_fails h) fun _ _ => .ok _
  | none => exact .ok _

theorem redeemFrom_continues (hs : redeemFrom env account w d = .ok w') :
    Continues env.now w.karma.toToken w'.karma.toToken := by
  simp only [redeemFrom, bind_eq_ok] at hs
  obtain ⟨_, -, hs⟩ := hs
  split at hs
  · exact callDistributor_continues h hs
  · cases hs
    exact .refl h

theorem redeemFrom_fails : Fails Covered (redeemFrom env account w d) :=
  .bind distributorAt_fails fun _ _ => .ite (fun _ => callDistributor_fails h) fun _ => .ok _

theorem redeemAll_continues {ds : List Address} (hs : ds.foldlM
    (redeemFrom env account) w = .ok w') :
    Continues env.now w.karma.toToken w'.karma.toToken :=
  Except.foldlM_invariant
    (fun u : System => Continues env.now w.karma.toToken u.karma.toToken)
    (fun _ _ _ hc hu => hc.trans (redeemFrom_continues hc.sound hu)) (.refl h) hs

theorem slash_continues (hs : w.slash env sender account recipient = .ok w') :
    Continues env.now w.karma.toToken w'.karma.toToken := by
  simp only [slash, bind_eq_ok] at hs
  obtain ⟨-, -, w₁, hredeem, karma, hslash, ⟨⟩⟩ := hs
  have hredeemed := redeemAll_continues h hredeem
  exact hredeemed.trans (Karma.slashActual_continues hredeemed.sound hslash)

theorem apply_done (hp : w.Possible tx) (hs : w.apply tx = .ok w') : Done w tx w' := by
  obtain ⟨sender, env, action⟩ := tx
  obtain ⟨hsender, -, hp⟩ := hp
  cases action with
  | callDistributor d c => exact .callDistributor hs
  | slash account recipient => exact .slash hs
  | setReward d amount duration => exact .setReward hs
  | mint account amount =>
    obtain ⟨k, hk, rfl⟩ := map_eq_ok.mp hs
    simp only [Karma.mint, bind_eq_ok] at hk
    obtain ⟨-, -, hk⟩ := hk
    exact .pays (Karma.mintTokens_pays h hk) (by simp)
      (le_max_of_le_right (Karma.mintTokens_supply_le hk))
  | transfer dst amount =>
    obtain ⟨k, hk, rfl⟩ := map_eq_ok.mp hs
    obtain ⟨hpays, -⟩ := Karma.transfer_pays h hk
    exact .pays hpays (by simp [single]) (le_max_of_le_left (hpays.supply_le h (by simp [single])))
  | delegate delegatee =>
    obtain ⟨k, hk, rfl⟩ := map_eq_ok.mp hs
    have hpays := Karma.delegateVotes_pays h hsender hk
    exact .pays hpays (by simp) (le_max_of_le_left (hpays.supply_le h le_rfl))
  | delegateBySig signer delegatee nonce expiry =>
    obtain ⟨k, hk, rfl⟩ := map_eq_ok.mp hs
    have hpays := Karma.delegateBySig_pays h hp hk
    exact .pays hpays (by simp) (le_max_of_le_left (hpays.supply_le h le_rfl))
  | removeRewardDistributor d =>
    obtain ⟨k, hk, rfl⟩ := map_eq_ok.mp hs
    simp only [Karma.removeRewardDistributor, bind_eq_ok, failIf_eq_ok, not_not] at hk
    obtain ⟨-, -, -, hd, k₁, hburn, ⟨⟩⟩ := hk
    exact .remove hd hburn rfl
  | addRewardDistributor | setSlashPercentage | setSlashRewardPercentage | setAllowedToTransfer
  | setGaugeVoter | setRole =>
    simp only [apply, withKarma, map_eq_ok, Karma.addRewardDistributor,
      Karma.setSlashPercentage, Karma.setSlashRewardPercentage, Karma.setAllowedToTransfer,
      Karma.setGaugeVoter, Karma.setRole, bind_eq_ok, failIf_eq_ok] at hs
    obtain ⟨k, hs, ⟨⟩⟩ := hs
    refine .settings ?_ ?_ ?_ ?_
    all_goals grind [MAX_SLASH_PERCENTAGE]

theorem apply_continues (hp : w.Possible tx) (hs : w.apply tx = .ok w') :
    Continues tx.now w.karma.toToken w'.karma.toToken := by
  cases apply_done h hp hs with
  | slash hs => exact slash_continues h hs
  | callDistributor hs => exact callDistributor_continues h hs
  | setReward hs =>
    simp only [setReward, bind_eq_ok] at hs
    obtain ⟨-, -, -, -, karma, hmint, hs⟩ := hs
    have hminted := (Karma.mintTokens_pays h hmint).continues
    exact hminted.trans (callDistributor_continues hminted.sound hs)
  | pays hpays _ _ => exact hpays.continues
  | remove _ hburn _ => exact (Karma.burnTokens_pays h hburn).continues
  | settings htoken _ _ _ =>
    rw [htoken]
    exact .refl h

theorem apply_fails : Fails Covered (w.apply tx) := by
  obtain ⟨sender, env, action⟩ := tx
  cases action with
  | callDistributor d c => exact callDistributor_fails h
  | slash account recipient =>
    refine .guard (by simp) <| .bind ?_ fun w₁ hredeem =>
      .bind (Karma.slashActual_fails (redeemAll_continues h hredeem).sound) fun _ _ => .ok _
    exact .foldlM (fun u : System => u.karma.Sound)
      (fun _ _ _ hu hr => (redeemFrom_continues hu hr).sound) (fun _ _ hu => redeemFrom_fails hu) h
  | setReward d amount duration =>
    exact .guard (by simp) <| .guard (by simp) <|
      .bind (Karma.mintTokens_fails h) fun _ hmint =>
        callDistributor_fails (Karma.mintTokens_pays h hmint).continues.sound
  | mint account amount =>
    exact .map (.guard (by simp) <| Karma.mintTokens_fails h)
  | transfer dst amount => exact .map (Karma.transfer_fails h)
  | delegate delegatee => exact .map (Karma.delegateVotes_fails h)
  | delegateBySig signer delegatee nonce expiry =>
    refine .map (.guard (by simp) <| .guard (by simp) <| ?_)
    exact Karma.delegateVotes_fails (by exact { h with })
  | removeRewardDistributor d =>
    exact .map (.guard (by simp) <| .guard (by simp) <|
      .bind (Karma.burnTokens_fails h) fun _ _ => .ok _)
  | addRewardDistributor | setSlashPercentage | setSlashRewardPercentage | setAllowedToTransfer =>
    exact .map (.guard (by simp) <| .guard (by simp) <| .ok _)
  | setGaugeVoter | setRole => exact .map (.guard (by simp) <| .ok _)

end

-- Whole runs

def Recorded : System → (now : Nat) → (Nat → System) → Prop :=
  Runs.Recorded Tx.now Initial fun w tx w' => w.Possible tx ∧ w.apply tx = .ok w'

/-- The histories tell what the votes and the supply were. -/
structure Remembers (w : System) (now : Nat) (past : Nat → System) : Prop where
  dated : Token.Follows now w.karma.toToken w.karma.toToken
  votes : ∀ u d, (latest Checkpoint.fromBlock (w.karma.checkpoints d) u).elim 0 (·.votes) =
    (past u).karma.getVotes d
  supply : ∀ u, (latest Checkpoint.fromBlock w.karma.totalSupplyCheckpoints u).elim 0 (·.votes) =
    (past u).karma.totalSupply

theorem Remembers.step (h : w.Remembers t past) (ht : t ≤ now) (hnow : now < 2 ^ 48)
    (hc : Continues now w.karma.toToken w'.karma.toToken) :
    w'.Remembers now fun u => if u < now then past u else w' := by
  have hdated : Token.Follows now w.karma.toToken w.karma.toToken :=
    ⟨fun d => .refl (h.dated.votes d).sorted fun c hm => ((h.dated.votes d).le_now c hm).trans ht,
      .refl h.dated.supply.sorted fun c hm => (h.dated.supply.le_now c hm).trans ht⟩
  have hf := hc.follows hnow hdated
  refine ⟨hf.dated, fun u d => ?_, fun u => ?_⟩
  · by_cases hu : u < now
    · simp only [hu, if_true, (hf.votes d).before u hu, h.votes u d]
    · simp only [hu, if_false, (hf.votes d).latest_of_le (Nat.le_of_not_lt hu)]
      exact (currentVotes_eq _).symm
  · by_cases hu : u < now
    · simp only [hu, if_true, hf.supply.before u hu, h.supply u]
    · simp only [hu, if_false, hf.supply.latest_of_le (Nat.le_of_not_lt hu)]
      exact (currentVotes_eq _).symm.trans hc.sound.supply

theorem Initial.remembers (h : Initial w) (t : Nat) : w.karma.Sound ∧ w.Remembers t fun _ => w := by
  obtain ⟨⟨owner, hk⟩, -⟩ := h
  have htoken : w.karma.toToken = .empty := by rw [hk]; rfl
  refine ⟨htoken ▸ .empty, ?_⟩
  have hempty : Checkpoints.Extends Checkpoint.fromBlock t [] [] :=
    .refl List.Pairwise.nil (by simp)
  refine ⟨⟨fun d => ?_, ?_⟩, fun u d => ?_, fun u => ?_⟩ <;> rw [htoken]
  · exact hempty
  · exact hempty
  · rfl
  · rfl

theorem Recorded.sound (h : Recorded w t past) :
    w.karma.Sound ∧ (t < 2 ^ 48 → w.Remembers t past) := by
  refine Runs.Recorded.invariant
    (I := fun w t past => w.karma.Sound ∧ (t < 2 ^ 48 → w.Remembers t past)) ?_ ?_ h
  · intro w t hinit
    obtain ⟨hsound, hremembers⟩ := hinit.remembers t
    exact ⟨hsound, fun _ => hremembers⟩
  · rintro w t past tx w' ⟨hsound, hremembers⟩ ht ⟨hp, hs⟩
    have hc := apply_continues hsound hp hs
    exact ⟨hc.sound, fun hnow => (hremembers (by omega)).step ht hnow hc⟩

/-- The votes of a delegate are the actual tokens delegated to it, no subtraction of votes
underflows, and as long as block times fit the clock the past is remembered as it was. -/
theorem votes_conserved (h : Recorded w t past) :
    (∀ d, d ≠ 0 → w.karma.getVotes d =
      ∑ a with w.karma.delegates a = d, w.actualTokenBalanceOf a) ∧
    (∀ tx, w.apply tx ≠ .error (.votes .subtractionUnderflow)) ∧
    ∀ now u, t ≤ now → now < 2 ^ 48 → u < now →
      (∀ d, w.karma.getPastVotes now d u = .ok ((past u).karma.getVotes d)) ∧
        w.karma.getPastTotalSupply now u = .ok (past u).karma.totalSupply := by
  obtain ⟨hsound, hremembers⟩ := h.sound
  refine ⟨fun d hd => ?_, fun tx he => apply_fails hsound _ he rfl, fun now u ht hnow hu => ?_⟩
  · rw [hsound.votes d hd, Finset.sum_filter]
    rfl
  · have hr := hremembers (by omega)
    have hclock : ¬ clock now ≤ u := by
      rw [clock, Nat.mod_eq_of_lt hnow]
      omega
    refine ⟨fun d => ?_, ?_⟩
    · rw [Token.getPastVotes, failIf, if_neg hclock, ok_bind,
        checkpointsLookup_eq (hr.dated.votes d).sorted, hr.votes]
    · rw [Token.getPastTotalSupply, failIf, if_neg hclock, ok_bind,
        checkpointsLookup_eq hr.dated.supply.sorted, hr.supply]

def deployed : System := ⟨9, .initialized 1, fun _ => none⟩

theorem deployed_recorded : Recorded deployed 0 fun _ => deployed :=
  .init 0 ⟨⟨1, rfl⟩, fun _ _ h => nomatch h⟩

/-- The account 2 delegates to itself and gets 10 tokens. -/
theorem votes_conserved_delegate_then_mint : ∃ w past, Recorded w 100 past ∧
    w.karma.getVotes 2 = 10 ∧ w.karma.getPastVotes 101 2 100 = .ok 10 ∧
      w.karma.getPastVotes 101 2 99 = .ok 0 := by
  have h₁ := deployed_recorded.step (a := (⟨2, ⟨99, false⟩, .delegate 2⟩ : Tx)) (by decide)
    ⟨⟨by decide, rfl, trivial⟩, rfl⟩
  have h₂ := h₁.step (a := (⟨1, ⟨100, false⟩, .mint 2 10⟩ : Tx)) (by decide)
    ⟨⟨by decide, rfl, trivial⟩, rfl⟩
  have hpast := (votes_conserved h₂).2.2 101
  exact ⟨_, _, h₂, rfl, (hpast 100 (by decide) (by decide) (by decide)).1 2,
    (hpast 99 (by decide) (by decide) (by decide)).1 2⟩

/-- When the clock has wrapped around, a checkpoint of the new era comes after those of the old
one, and is taken for the votes of a time long ago. -/
theorem past_votes_wrong_after_wrap : ∃ w t past now u d, Recorded w t past ∧ t ≤ now ∧ u < now ∧
    w.karma.getPastVotes now d u = .ok 15 ∧ (past u).karma.getVotes d = 0 := by
  have h₁ := deployed_recorded.step (a := (⟨2, ⟨99, false⟩, .delegate 2⟩ : Tx)) (by decide)
    ⟨⟨by decide, rfl, trivial⟩, rfl⟩
  have h₂ := h₁.step (a := (⟨1, ⟨100, false⟩, .mint 2 10⟩ : Tx)) (by decide)
    ⟨⟨by decide, rfl, trivial⟩, rfl⟩
  have h₃ := h₂.step (a := (⟨1, ⟨2 ^ 48 + 50, false⟩, .mint 2 5⟩ : Tx)) (by decide)
    ⟨⟨by decide, rfl, trivial⟩, rfl⟩
  exact ⟨_, _, _, 2 ^ 48 + 70, 60, 2, h₃, by decide, by decide, by decide +kernel, rfl⟩

end System

end StatusNetwork.Reputation
