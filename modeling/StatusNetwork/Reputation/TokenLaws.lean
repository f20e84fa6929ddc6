import Mathlib.Data.FinEnum
import Mathlib.Data.Nat.Sqrt
import StatusNetwork.Reputation.Token

/-!
# What the token's operations do to votes

The votes of a delegate are the actual balances of the accounts that delegate to it, and the
last checkpoint of the supply is the supply. Every operation keeps that, and writes no
checkpoint of an earlier time.
-/

namespace StatusNetwork.Reputation

open Staking (Address)
open Checkpoints (Extends Sorted latest Splits)
open Except (Fails)
open Checkpoint (fromBlock)
open Balances (le_part move part part_add part_zero)
open Function (update update_of_ne)

-- Checkpoints

theorem toUint_ok : toUint bits n = .ok m ↔ n < 2 ^ bits ∧ m = n := by
  simp only [toUint, bind_eq_ok, failIf_eq_ok, Nat.not_le, Except.ok.injEq]
  constructor
  · rintro ⟨_, hlt, rfl⟩
    exact ⟨hlt, rfl⟩
  · rintro ⟨hlt, rfl⟩
    exact ⟨(), hlt, rfl⟩

theorem unsafeAccess_concat : unsafeAccess (ckpts ++ [c]) ckpts.length = c := by
  simp [unsafeAccess]

@[simp] theorem currentVotes_nil : currentVotes [] = 0 := rfl

@[simp] theorem currentVotes_concat : currentVotes (ckpts ++ [c]) = c.votes := by
  simp [currentVotes, unsafeAccess_concat]

theorem currentVotes_eq (ckpts : List Checkpoint) :
    currentVotes ckpts = ckpts.getLast?.elim 0 (·.votes) := by
  rcases List.eq_nil_or_concat' ckpts with rfl | ⟨l, c, rfl⟩ <;> simp

theorem writeCheckpoint_ok (h : writeCheckpoint now ckpts op delta = .ok ckpts') :
    op (currentVotes ckpts) delta = .ok (currentVotes ckpts') ∧
      (now < 2 ^ 48 → Extends fromBlock now ckpts ckpts → Extends fromBlock now ckpts ckpts') := by
  have hclock (hnow : now < 2 ^ 48) : clock now = now := Nat.mod_eq_of_lt hnow
  rcases List.eq_nil_or_concat' ckpts with rfl | ⟨l, c, rfl⟩
  · simp only [writeCheckpoint, List.length_nil, Nat.lt_irrefl, gt_iff_lt, false_and, if_false,
      if_true, bind_eq_ok, toUint_ok] at h
    obtain ⟨weight, hop, _, ⟨-, rfl⟩, _, ⟨-, rfl⟩, ⟨⟩⟩ := h
    refine ⟨hop, fun hnow _ => ?_⟩
    exact .push List.Pairwise.nil (by simp) (hclock hnow)
  · have hlen : (l ++ [c]).length = l.length + 1 := by simp
    simp only [writeCheckpoint, hlen, Nat.add_sub_cancel, unsafeAccess_concat, Nat.succ_ne_zero,
      if_false, Nat.succ_pos, gt_iff_lt, true_and, bind_eq_ok] at h
    obtain ⟨weight, hop, h⟩ := h
    rw [currentVotes_concat]
    split at h
    · rename_i hsame
      simp only [bind_eq_ok, toUint_ok] at h
      obtain ⟨votes, ⟨-, rfl⟩, h⟩ := h
      have hset : (l ++ [c]).set l.length { c with votes } = l ++ [{ c with votes }] := by simp
      rw [hset] at h
      cases h
      refine ⟨by rw [currentVotes_concat]; exact hop, fun hnow hdated => ?_⟩
      have hc := hsame.trans (hclock hnow)
      exact .replace hdated.sorted hc hc
    · rename_i hother
      simp only [bind_eq_ok, toUint_ok] at h
      obtain ⟨_, ⟨-, rfl⟩, _, ⟨-, rfl⟩, ⟨⟩⟩ := h
      refine ⟨by rw [currentVotes_concat]; exact hop, fun hnow hdated => ?_⟩
      rw [hclock hnow] at hother ⊢
      refine .push hdated.sorted (fun a ha => ?_) rfl
      -- the last entry is not of this time, and the others are earlier
      rcases List.mem_append.mp ha with hl | hl
      · have := (List.pairwise_append.mp hdated.sorted).2.2 a hl c (List.mem_singleton_self c)
        have := hdated.le_now c (by simp)
        omega
      · obtain rfl := List.mem_singleton.mp hl
        have := hdated.le_now a ha
        omega

theorem writeCheckpoint_fails (h : Fails (· ≠ .votes .subtractionUnderflow)
    (op (currentVotes ckpts) delta)) :
    Fails (· ≠ .votes .subtractionUnderflow) (writeCheckpoint now ckpts op delta) := by
  have hcast (bits n : Nat) : Fails (· ≠ .votes .subtractionUnderflow) (toUint bits n) :=
    .guard (by simp) <| .ok _
  have hop : Fails (· ≠ .votes .subtractionUnderflow)
      (op (if ckpts.length = 0 then (⟨0, 0⟩ : Checkpoint)
        else unsafeAccess ckpts (ckpts.length - 1)).votes delta) := by
    unfold currentVotes at h
    split at h
    · rename_i h0
      simpa only [h0, if_true] using h
    · rename_i h0
      simpa only [h0, if_false] using h
  refine .bind hop fun weight _ => .ite (fun _ => ?_) fun _ => ?_
  · exact .bind (hcast _ _) fun _ _ => .ok _
  · exact .bind (hcast _ _) fun _ _ => .bind (hcast _ _) fun _ _ => .ok _

-- Looking up the past

theorem after_iff : timepoint < (unsafeAccess ckpts i).fromBlock ↔
    ∃ c, ckpts[i]? = some c ∧ timepoint < c.fromBlock := by
  unfold unsafeAccess
  rw [List.getD_eq_getElem?_getD]
  cases ckpts[i]? <;> simp

theorem Sorted.after_mono (hs : Sorted fromBlock ckpts) (timepoint i j : Nat) (hij : i ≤ j)
    (hj : j < ckpts.length) (h : timepoint < (unsafeAccess ckpts i).fromBlock) :
    timepoint < (unsafeAccess ckpts j).fromBlock := by
  rcases Nat.lt_or_eq_of_le hij with hlt | rfl
  · have := List.pairwise_iff_getElem.mp hs i j (by omega) hj hlt
    simp only [unsafeAccess, List.getD_eq_getElem?_getD, List.getElem?_eq_getElem, hj,
      (by omega : i < ckpts.length), Option.getD_some] at h ⊢
    omega
  · exact h

theorem checkpointsSearch_splits (hs : Sorted fromBlock ckpts) (timepoint : Nat) :
    Splits (fun i => timepoint < (unsafeAccess ckpts i).fromBlock) ckpts.length
      (checkpointsSearch ckpts timepoint) := by
  have hmono := Sorted.after_mono hs timepoint
  have hsqrt : 5 < ckpts.length → 0 < ckpts.length.sqrt := fun h => Nat.sqrt_pos.2 (by omega)
  simp only [checkpointsSearch]
  split
  · split
    · -- the probe is after the time, so is everything from there on
      rename_i hafter
      exact Checkpoints.bisect_splits hmono (Nat.zero_le _) (Nat.sub_le ..) (by simp)
        fun j hj hjn => hmono _ j hj hjn hafter
    · -- nothing up to the probe is after the time
      rename_i hafter
      exact Checkpoints.bisect_splits hmono (by omega) le_rfl
        (fun j hj hafterj => hafter (hmono j _ (by omega) (by omega) hafterj)) (by omega)
  · exact Checkpoints.bisect_splits hmono (Nat.zero_le _) le_rfl (by simp) (by omega)

/-- The search finds the votes of the checkpoint in force at the time. -/
theorem checkpointsLookup_eq (hs : Sorted fromBlock ckpts) (timepoint : Nat) :
    checkpointsLookup ckpts timepoint = (latest fromBlock ckpts timepoint).elim 0 (·.votes) := by
  have hsplits := checkpointsSearch_splits hs timepoint
  have hle := hsplits.le
  simp only [after_iff] at hsplits
  rw [Checkpoints.latest_eq_of_splits hsplits, checkpointsLookup]
  split
  · rfl
  · rw [unsafeAccess, List.getD_eq_getElem?_getD, List.getElem?_eq_getElem (by omega)]
    rfl

-- The token

namespace Token

variable {t t' : Token}

/-- What the accounts that delegate to `d` hold. -/
def delegated (t : Token) (d : Address) : Nat := Balances.part (t.delegates · = d) t.balances

structure Sound (t : Token) : Prop where
  delegates_zero : t.delegates 0 = 0
  total : ∑ a, t.balances a = t.totalSupply
  votes : ∀ d, d ≠ 0 → t.getVotes d = t.delegated d
  supply : currentVotes t.totalSupplyCheckpoints = t.totalSupply

theorem Sound.empty : Token.empty.Sound := by
  refine ⟨rfl, by simp [Token.empty], fun d _ => ?_, rfl⟩
  have hnone : Token.empty.delegated d = 0 := by
    unfold delegated part
    exact Finset.sum_eq_zero fun a _ => ite_self 0
  rw [hnone]
  rfl

/-- The histories of `t'` are those of `t`, written from `now` on. -/
structure Follows (now : Nat) (t t' : Token) : Prop where
  votes : ∀ d, Extends Checkpoint.fromBlock now (t.checkpoints d) (t'.checkpoints d)
  supply : Extends Checkpoint.fromBlock now t.totalSupplyCheckpoints t'.totalSupplyCheckpoints

theorem Follows.dated (h : Follows now t t') : Follows now t' t' :=
  ⟨fun d => .refl (h.votes d).sorted (h.votes d).le_now, .refl h.supply.sorted h.supply.le_now⟩

theorem Follows.trans (h : Follows now t t') (h' : Follows now t' t'') : Follows now t t'' :=
  ⟨fun d => (h.votes d).trans (h'.votes d), h.supply.trans h'.supply⟩

/-- An operation at `now` keeps the votes what they are meant to be, and while the clock can
tell the time, it leaves the past alone. -/
structure Continues (now : Nat) (t t' : Token) : Prop where
  sound : t'.Sound
  follows : now < 2 ^ 48 → Follows now t t → Follows now t t'

theorem Continues.refl (h : t.Sound) : Continues now t t := ⟨h, fun _ h => h⟩

theorem Continues.trans (h : Continues now t t') (h' : Continues now t' t'') :
    Continues now t t'' :=
  ⟨h'.sound, fun hnow hdated =>
    have hf := h.follows hnow hdated
    hf.trans (h'.follows hnow hf.dated)⟩

-- Moving votes

/-- Votes are moved between delegates; the zero address has none. -/
structure Moved (now : Nat) (src dst : Address) (amount : Nat) (t t' : Token) : Prop where
  eq : t' = { t with checkpoints := t'.checkpoints }
  votes : ∀ d, d ≠ 0 → t'.getVotes d + (if d = src then amount else 0) =
    t.getVotes d + (if d = dst then amount else 0)
  follows : now < 2 ^ 48 → Follows now t t → Follows now t t'

theorem setCheckpoints_follows (h : Follows now t t)
    (hc : Extends fromBlock now (t.checkpoints d) ckpts) :
    Follows now t (t.setCheckpoints d ckpts) := by
  refine ⟨fun a => ?_, h.supply⟩
  by_cases ha : a = d
  · subst ha
    simpa [setCheckpoints] using hc
  · simpa [setCheckpoints, ha] using h.votes a

theorem getVotes_setCheckpoints (t : Token) (d a : Address) (ckpts : List Checkpoint) :
    (t.setCheckpoints d ckpts).getVotes a = if a = d then currentVotes ckpts else t.getVotes a := by
  by_cases ha : a = d
  · subst ha
    simp [getVotes, setCheckpoints]
  · simp [getVotes, setCheckpoints, ha]

theorem moveVotingPower_ok (h : t.moveVotingPower now src dst amount = .ok t') :
    Moved now src dst amount t t' := by
  unfold moveVotingPower at h
  split at h
  · obtain ⟨t₁, hsrc, hdst⟩ := bind_eq_ok.mp h
    have h₁ : Moved now src 0 amount t t₁ := by
      split at hsrc
      · obtain ⟨ckpts, hwrite, ⟨⟩⟩ := bind_eq_ok.mp hsrc
        obtain ⟨hop, hext⟩ := writeCheckpoint_ok hwrite
        rw [Checked.sub_eq_ok] at hop
        refine ⟨rfl, fun d hd => ?_,
          fun hnow hd => setCheckpoints_follows hd (hext hnow (hd.votes _))⟩
        rw [getVotes_setCheckpoints]
        by_cases hds : d = src
        · subst hds
          simp only [if_true, hd, if_false, hop.2]
          exact Nat.sub_add_cancel hop.1
        · simp only [hds, hd, if_false]
      · rename_i h0
        cases hsrc
        refine ⟨rfl, fun d hd => ?_, fun _ hd => hd⟩
        have : d ≠ src := fun h => h0 (h ▸ hd)
        simp only [this, hd, if_false]
    have h₂ : Moved now 0 dst amount t₁ t' := by
      split at hdst
      · obtain ⟨ckpts, hwrite, ⟨⟩⟩ := bind_eq_ok.mp hdst
        obtain ⟨hop, hext⟩ := writeCheckpoint_ok hwrite
        rw [Checked.add_eq_ok] at hop
        refine ⟨rfl, fun d hd => ?_,
          fun hnow hd => setCheckpoints_follows hd (hext hnow (hd.votes _))⟩
        rw [getVotes_setCheckpoints]
        by_cases hds : d = dst
        · subst hds
          simp only [if_true, hd, if_false, hop.2]
          rfl
        · simp only [hds, hd, if_false]
      · rename_i h0
        cases hdst
        refine ⟨rfl, fun d hd => ?_, fun _ hd => hd⟩
        have : d ≠ dst := fun h => h0 (h ▸ hd)
        simp only [this, hd, if_false]
    refine ⟨?_, fun d hd => ?_, fun hnow hd => ?_⟩
    · rw [h₂.eq, h₁.eq]
    · have e₁ := h₁.votes d hd
      have e₂ := h₂.votes d hd
      omega
    · have hf := h₁.follows hnow hd
      exact hf.trans (h₂.follows hnow hf.dated)
  · rename_i hnone
    cases h
    refine ⟨rfl, fun d _ => ?_, fun _ hd => hd⟩
    rcases not_and_or.mp hnone with heq | hzero
    · rw [not_not.mp heq]
    · obtain rfl : amount = 0 := by omega
      simp

theorem moveVotingPower_fails (h : src ≠ 0 → amount ≤ t.getVotes src) :
    Fails (· ≠ .votes .subtractionUnderflow) (t.moveVotingPower now src dst amount) := by
  refine .ite (fun _ => .bind (.ite (fun hsrc => .bind ?_ fun _ _ => .ok _) fun _ => .ok _)
    fun t₁ _ => .ite (fun _ => .bind ?_ fun _ _ => .ok _) fun _ => .ok _) fun _ => .ok _
  · exact writeCheckpoint_fails (Checked.sub_fails_of_le (h hsrc))
  · exact writeCheckpoint_fails (Checked.add_fails fun _ => by simp)

/-- `n` at one account. -/
def single (account : Address) (n : Nat) : Address → Nat := fun a => if a = account then n else 0

theorem part_single (d : Address) :
    part (t.delegates · = d) (single account n) =
      if d = t.delegates account then n else 0 := by
  refine (Balances.part_single account n).trans ?_
  simp only [eq_comm]

/-- Balances are changed, votes moved between `src` and `dst` along with them, and the supply
recorded. -/
theorem Sound.pay (h : t.Sound) (hb : ∀ a, b a + out a = t.balances a + paid a)
    (hmoved : Moved now src dst amount { t with balances := b, totalSupply := n } t')
    (hout : ∀ d, d ≠ 0 → part (t.delegates · = d) out = if d = src then amount else 0)
    (hpaid : ∀ d, d ≠ 0 → part (t.delegates · = d) paid = if d = dst then amount else 0)
    (htotal : n + ∑ a, out a = t.totalSupply + ∑ a, paid a)
    (hsupply : currentVotes ckpts = n)
    (hext : now < 2 ^ 48 →
      Extends fromBlock now t.totalSupplyCheckpoints t.totalSupplyCheckpoints →
      Extends fromBlock now t.totalSupplyCheckpoints ckpts) :
    Continues now t { t' with totalSupplyCheckpoints := ckpts } := by
  have hbalances : t'.balances = b := by rw [hmoved.eq]
  have hdelegates : t'.delegates = t.delegates := by rw [hmoved.eq]
  have hn : t'.totalSupply = n := by rw [hmoved.eq]
  refine ⟨⟨?_, ?_, fun d hd => ?_, hsupply.trans hn.symm⟩, fun hnow hdated => ?_⟩
  · exact hdelegates ▸ h.delegates_zero
  · have hsum := part_add (p := fun _ => True) hb
    simp only [Balances.part_true, h.total] at hsum
    rw [hbalances, hn]
    omega
  · have hpart := part_add (p := (t.delegates · = d)) hb
    rw [hout d hd, hpaid d hd] at hpart
    have hvotes : t'.getVotes d + _ = t.getVotes d + _ := hmoved.votes d hd
    rw [h.votes d hd] at hvotes
    change t'.getVotes d = part (t'.delegates · = d) t'.balances
    simp only [hbalances, hdelegates]
    change _ = part (t.delegates · = d) t.balances + _ at hvotes
    omega
  · exact ⟨(hmoved.follows hnow ⟨hdated.votes, hdated.supply⟩).votes, hext hnow hdated.supply⟩

theorem delegated_update (t : Token) (delegator delegatee d : Address) :
    { t with delegates := update t.delegates delegator delegatee }.delegated d +
        (if d = t.delegates delegator then t.balances delegator else 0) =
      t.delegated d + (if d = delegatee then t.balances delegator else 0) := by
  have hsum (n : Nat) : ∑ a, single delegator n a = n := by simp [single]
  rw [← hsum (if d = t.delegates delegator then _ else _), ← hsum (if d = delegatee then _ else _)]
  simp only [delegated, part, ← Finset.sum_add_distrib]
  refine Finset.sum_congr rfl fun a _ => ?_
  by_cases ha : a = delegator
  · subst ha
    simp only [Function.update_self, single, if_true, eq_comm]
    omega
  · simp only [update_of_ne ha, single, ha, if_false]

/-- A delegator's votes move from one delegate to the next. -/
theorem Sound.redelegate (h : t.Sound) (hne : delegator ≠ 0)
    (hmoved : Moved now (t.delegates delegator) delegatee (t.balances delegator)
      { t with delegates := update t.delegates delegator delegatee } t') :
    Continues now t t' := by
  refine ⟨⟨?_, ?_, fun d hd => ?_, ?_⟩, fun hnow hdated => ?_⟩
  · rw [hmoved.eq]
    exact (update_of_ne hne.symm _ _).trans h.delegates_zero
  · rw [hmoved.eq]
    exact h.total
  · have hvotes : t'.getVotes d + _ = t.getVotes d + _ := hmoved.votes d hd
    have hdelegated := delegated_update t delegator delegatee d
    rw [h.votes d hd] at hvotes
    have hsame : t'.delegated d =
        { t with delegates := update t.delegates delegator delegatee }.delegated d := by
      rw [hmoved.eq]
      rfl
    omega
  · rw [hmoved.eq]
    exact h.supply
  · have hfollows := hmoved.follows hnow ⟨hdated.votes, hdated.supply⟩
    exact ⟨hfollows.votes, hfollows.supply⟩

end Token

-- Karma

namespace Karma

open Token (single Moved Continues)

variable {s s' : Karma}

theorem afterTokenTransfer_ok (h : s.afterTokenTransfer env src dst amount = .ok s') :
    s' = { s with toToken := s'.toToken } ∧
      Moved env.now (s.delegates src) (s.delegates dst) amount s.toToken s'.toToken ∧
      s'.totalSupplyCheckpoints = s.totalSupplyCheckpoints := by
  simp only [afterTokenTransfer, bind_eq_ok] at h
  obtain ⟨t, hmove, -, -, ⟨⟩⟩ := h
  have hmoved := Token.moveVotingPower_ok hmove
  exact ⟨rfl, hmoved, by rw [hmoved.eq]⟩

/-- An operation on the token part alone, with what it takes from and pays to each account. -/
structure Pays (now : Nat) (out paid : Address → Nat) (s s' : Karma) : Prop where
  eq : s' = { s with toToken := s'.toToken }
  balances : ∀ a, s'.balances a + out a = s.balances a + paid a
  continues : Continues now s.toToken s'.toToken

theorem mintTokens_supply_le (hs : s.mintTokens env account amount = .ok s') :
    s'.totalSupply ≤ maxSupply := by
  simp only [mintTokens, bind_eq_ok, failIf_eq_ok, Nat.not_lt] at hs
  obtain ⟨-, -, _, -, s₁, -, -, hle, _, -, ⟨⟩⟩ := hs
  exact hle

section
variable (h : s.Sound)
include h

theorem mintTokens_pays (hs : s.mintTokens env account amount = .ok s') :
    Pays env.now (fun _ => 0) (single account amount) s s' := by
  simp only [mintTokens, bind_eq_ok, Checked.add_eq_ok] at hs
  obtain ⟨-, -, _, ⟨-, rfl⟩, s₁, hafter, -, -, ckpts, hwrite, ⟨⟩⟩ := hs
  obtain ⟨heq, hmoved, hsupply⟩ := afterTokenTransfer_ok hafter
  obtain ⟨hop, hext⟩ := writeCheckpoint_ok hwrite
  rw [hsupply] at hop hext
  rw [h.supply, Checked.add_eq_ok] at hop
  have hbalances (a : Address) :
      update s.balances account (s.balances account + amount) a +
      0 = s.balances a + single account amount a := Balances.give_add a
  refine ⟨?_, fun a => ?_, h.pay hbalances hmoved (fun d hd => ?_) (fun d hd => ?_) ?_ hop.2 hext⟩
  · rw [heq]
  · rw [← hbalances a]
    rw [hmoved.eq]
  · rw [part_zero, if_neg (by rw [h.delegates_zero]; exact hd)]
  · exact Token.part_single d
  · simp [single]

theorem burnTokens_pays (hs : s.burnTokens env account amount = .ok s') :
    Pays env.now (single account amount) (fun _ => 0) s s' := by
  simp only [burnTokens, bind_eq_ok, failIf_eq_ok, Nat.not_lt] at hs
  obtain ⟨-, -, -, hle, s₁, hafter, ckpts, hwrite, ⟨⟩⟩ := hs
  obtain ⟨heq, hmoved, hsupply⟩ := afterTokenTransfer_ok hafter
  obtain ⟨hop, hext⟩ := writeCheckpoint_ok hwrite
  rw [hsupply] at hop hext
  rw [h.supply, Checked.sub_eq_ok] at hop
  have hbalances (a : Address) :
      update s.balances account (s.balances account - amount) a +
      single account amount a = s.balances a + 0 := Balances.take_add hle a
  refine ⟨?_, fun a => ?_, h.pay hbalances hmoved (fun d hd => ?_) (fun d hd => ?_) ?_ hop.2 hext⟩
  · rw [heq]
  · rw [← hbalances a]
    rw [hmoved.eq]
  · exact Token.part_single d
  · rw [part_zero, if_neg (by rw [h.delegates_zero]; exact hd)]
  · simp [single]
    omega

theorem transfer_pays (hs : s.transfer env sender dst amount = .ok s') :
    Pays env.now (single sender amount) (single dst amount) s s' ∧ dst ∉ s.rewardDistributors := by
  simp only [transfer, beforeTokenTransfer, bind_eq_ok, failIf_eq_ok, Nat.not_lt] at hs
  obtain ⟨-, -, -, -, -, ⟨-, -, hdst⟩, -, hle, hafter⟩ := hs
  obtain ⟨heq, hmoved, hsupply⟩ := afterTokenTransfer_ok hafter
  have hbalances (a : Address) : move s.balances sender dst amount a +
      single sender amount a = s.balances a + single dst amount a := Balances.move_add hle a
  refine ⟨⟨?_, fun a => ?_, ?_⟩, hdst⟩
  · rw [heq]
  · have := hbalances a
    rw [hmoved.eq]
    exact this
  · have hcont := h.pay hbalances hmoved
      (fun d _ => Token.part_single d) (fun d _ => Token.part_single d) (by simp [single])
      h.supply (fun _ h => h)
    rwa [← hsupply] at hcont

theorem delegateVotes_pays (hne : delegator ≠ 0)
    (hs : s.delegateVotes env delegator delegatee = .ok s') :
    Pays env.now (fun _ => 0) (fun _ => 0) s s' := by
  simp only [delegateVotes, bind_eq_ok] at hs
  obtain ⟨t, hmove, -, -, ⟨⟩⟩ := hs
  have hmoved := Token.moveVotingPower_ok hmove
  refine ⟨rfl, fun a => ?_, h.redelegate hne hmoved⟩
  rw [hmoved.eq]

theorem delegateBySig_pays (hne : signer ≠ 0)
    (hs : s.delegateBySig env signer delegatee nonce expiry = .ok s') :
    Pays env.now (fun _ => 0) (fun _ => 0) s s' := by
  simp only [delegateBySig, bind_eq_ok] at hs
  obtain ⟨-, -, -, -, hs⟩ := hs
  have hpays := delegateVotes_pays (by exact { h with }) hne hs
  refine ⟨?_, hpays.balances, hpays.continues.sound, fun hnow hdated => ?_⟩
  · rw [hpays.eq]
  · have hfollows := hpays.continues.follows hnow { hdated with }
    exact ⟨hfollows.votes, hfollows.supply⟩

theorem Pays.supply_le (hp : Pays now out paid s s') (hle : ∑ a, paid a ≤ ∑ a, out a) :
    s'.totalSupply ≤ s.totalSupply := by
  have hsum : ∑ a, (s'.balances a + out a) = ∑ a, (s.balances a + paid a) :=
    Finset.sum_congr rfl fun a _ => hp.balances a
  rw [Finset.sum_add_distrib, Finset.sum_add_distrib, hp.continues.sound.total, h.total] at hsum
  omega

-- No subtraction of votes underflows

abbrev Covered (e : Revert) : Prop := e ≠ .votes .subtractionUnderflow

omit h in
theorem afterTokenTransfer_fails (h : s.delegates src ≠ 0 → amount ≤ s.getVotes (s.delegates src)) :
    Fails Covered (s.afterTokenTransfer env src dst amount) :=
  .bind (Token.moveVotingPower_fails h) fun _ _ =>
    .bind (.ite (fun _ => .failIf (by simp)) fun _ => .ok _) fun _ _ => .ok _

theorem le_getVotes (hd : s.delegates a ≠ 0) : s.balances a ≤ s.getVotes (s.delegates a) := by
  rw [h.votes _ hd]
  exact le_part rfl

theorem mintTokens_fails : Fails Covered (s.mintTokens env account amount) := by
  refine .guard (by simp) <| .bind (Checked.add_fails fun _ => by simp)
    fun _ _ => .bind (afterTokenTransfer_fails fun h0 => ?_) fun _ _ =>
      .guard (by simp) <| .bind (writeCheckpoint_fails ?_) fun _ _ => .ok _
  · exact absurd h.delegates_zero h0
  · exact Checked.add_fails fun _ => by simp

theorem burnTokens_fails : Fails Covered (s.burnTokens env account amount) := by
  refine .guard (by simp) <| .bind (.failIf (by simp)) fun _ hle => ?_
  simp only [failIf_eq_ok, Nat.not_lt] at hle
  refine .bind (afterTokenTransfer_fails fun h0 => ?_) fun s₁ hafter =>
    .bind (writeCheckpoint_fails ?_) fun _ _ => .ok _
  · exact hle.trans (le_getVotes h h0)
  · rw [(afterTokenTransfer_ok hafter).2.2, h.supply, ← h.total]
    refine Checked.sub_fails_of_le (hle.trans ?_)
    exact Finset.single_le_sum (fun _ _ => Nat.zero_le _) (Finset.mem_univ account)

theorem transfer_fails : Fails Covered (s.transfer env sender dst amount) := by
  refine .guard (by simp) <| .guard (by simp) <|
    .bind (.guard (by simp) <| .failIf (by simp)) fun _ _ =>
      .bind (.failIf (by simp)) fun _ hle => ?_
  simp only [failIf_eq_ok, Nat.not_lt] at hle
  exact afterTokenTransfer_fails fun h0 => hle.trans (le_getVotes h h0)

theorem delegateVotes_fails : Fails Covered (s.delegateVotes env delegator delegatee) :=
  .bind (Token.moveVotingPower_fails fun h0 => le_getVotes h h0) fun _ _ =>
    .guard (by simp) <| .ok _

end

end Karma

end StatusNetwork.Reputation
