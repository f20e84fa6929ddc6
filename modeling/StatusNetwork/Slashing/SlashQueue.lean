import StatusNetwork.Base.Runs
import StatusNetwork.Staking.Ledger

/-!
# The slash queue

Models `RLN.sol`. Whoever knows a member's private key commits to it before revealing it, and
the commitments for one account queue up: each gets a reveal window of its own after the one
before.
-/

namespace StatusNetwork.Slashing

open Staking (Address)

abbrev Bytes32 := BitVec 256

inductive RlnError
  | memberNotFound
  | idCommitmentAlreadyRegistered
  | invalidCommitment
  | revealWindowNotStarted
  | invalidSlashRevealWindowTime (windowTime : Nat)
  deriving DecidableEq

inductive Revert
  | rln (e : RlnError)
  | arithmetic (e : Checked.ArithError)
  | missingRole
  | karma
  deriving DecidableEq

abbrev add := Checked.add Revert.arithmetic

inductive Role
  | defaultAdmin
  | register
  deriving DecidableEq

structure User where
  userAddress : Address
  index : Nat

/-- The hash functions: of a private key with a recipient, of a sender with such a hash, and the
Poseidon hash of a private key. -/
structure Hashes where
  secret : Bytes32 → Address → Bytes32
  slashCommitmentKey : Address → Bytes32 → Bytes32
  poseidon : Nat → Nat

structure Rln where
  identityCommitmentIndex : Nat
  members : Nat → User
  slashRevealWindowTime : Nat
  lastRevealStartTime : Address → Nat
  slashCommitments : Address → Bytes32 → Nat
  hasRole : Role → Address → Bool

namespace Rln

def initialized (owner register : Address) : Rln where
  identityCommitmentIndex := 0
  members _ := ⟨0, 0⟩
  slashRevealWindowTime := 60 * 60
  lastRevealStartTime _ := 0
  slashCommitments _ _ := 0
  hasRole
    | .defaultAdmin, account => account = owner
    | .register, account => account = register

variable (H : Hashes) (s : Rln)

def onlyRole (role : Role) (sender : Address) : Except Revert Unit :=
  failIf (s.hasRole role sender = false) .missingRole

def setSlashRevealWindowTime (sender : Address) (windowTime : Nat) : Except Revert Rln := do
  s.onlyRole .defaultAdmin sender
  failIf (windowTime = 0 ∨ windowTime > 24 * 60 * 60)
    (.rln (.invalidSlashRevealWindowTime windowTime))
  .ok { s with slashRevealWindowTime := windowTime }

def setRole (role : Role) (account : Address) (granted : Bool) : Rln :=
  { s with
    hasRole := Function.update s.hasRole role (Function.update (s.hasRole role) account granted) }

def grantRole (sender : Address) (role : Role) (account : Address) : Except Revert Rln := do
  s.onlyRole .defaultAdmin sender
  .ok (s.setRole role account true)

def revokeRole (sender : Address) (role : Role) (account : Address) : Except Revert Rln := do
  s.onlyRole .defaultAdmin sender
  .ok (s.setRole role account false)

def renounceRole (sender : Address) (role : Role) : Except Revert Rln :=
  .ok (s.setRole role sender false)

def register (sender : Address) (identityCommitment : Nat) (user : Address) :
    Except Revert Rln := do
  s.onlyRole .register sender
  failIf ((s.members identityCommitment).userAddress ≠ 0)
    (.rln .idCommitmentAlreadyRegistered)
  .ok { s with
    members := Function.update s.members identityCommitment ⟨user, s.identityCommitmentIndex⟩
    identityCommitmentIndex := (s.identityCommitmentIndex + 1) % 2 ^ 256 }

def revealStartTime (now : Nat) (account : Address) : Except Revert Nat := do
  let lastReveal := s.lastRevealStartTime account
  if lastReveal = 0 then .ok now
  else do
    let windowEnd ← add lastReveal s.slashRevealWindowTime
    .ok (if windowEnd < now then now else windowEnd)

def setCommitment (account : Address) (key : Bytes32) (start : Nat) : Rln :=
  { s with
    slashCommitments :=
      Function.update s.slashCommitments account
        (Function.update (s.slashCommitments account) key start) }

def enqueue (account : Address) (key : Bytes32) (start : Nat) : Rln :=
  { s.setCommitment account key start with
    lastRevealStartTime := Function.update s.lastRevealStartTime account start }

def slashCommit (now : Nat) (sender account : Address) (hash : Bytes32) : Except Revert Rln := do
  let start ← s.revealStartTime now account
  .ok (s.enqueue account (H.slashCommitmentKey sender hash) start)

/-- `slashes` is whether Karma slashes the member, or reverts. -/
def slashReveal (now : Nat) (sender account : Address) (privateKey : Bytes32)
    (rewardRecipient : Address) (slashes : Bool) : Except Revert Rln := do
  let key := H.slashCommitmentKey sender (H.secret privateKey rewardRecipient)
  let start := s.slashCommitments account key
  failIf (start = 0) (.rln .invalidCommitment)
  failIf (now < start) (.rln .revealWindowNotStarted)
  let s := s.setCommitment account key 0
  let identityCommitment := H.poseidon privateKey.toNat
  let member := s.members identityCommitment
  failIf (member.userAddress = 0) (.rln .memberNotFound)
  failIf (account ≠ member.userAddress) (.rln .invalidCommitment)
  failIf (slashes = false) .karma
  .ok { s with members := Function.update s.members identityCommitment ⟨0, 0⟩ }

-- Runs

inductive Action
  | setSlashRevealWindowTime (windowTime : Nat)
  | grantRole (role : Role) (account : Address)
  | revokeRole (role : Role) (account : Address)
  | renounceRole (role : Role)
  | register (identityCommitment : Nat) (user : Address)
  | slashCommit (account : Address) (hash : Bytes32)
  | slashReveal (account : Address) (privateKey : Bytes32) (rewardRecipient : Address)
      (slashes : Bool)

/-- A block's timestamp is above its parent's, so no transaction runs at time zero. -/
structure Tx where
  sender : Address
  now : Nat
  now_pos : 0 < now
  action : Action

def apply (tx : Tx) : Except Revert Rln :=
  match tx.action with
  | .setSlashRevealWindowTime windowTime => s.setSlashRevealWindowTime tx.sender windowTime
  | .grantRole role account => s.grantRole tx.sender role account
  | .revokeRole role account => s.revokeRole tx.sender role account
  | .renounceRole role => s.renounceRole tx.sender role
  | .register identityCommitment user => s.register tx.sender identityCommitment user
  | .slashCommit account hash => s.slashCommit H tx.now tx.sender account hash
  | .slashReveal account privateKey rewardRecipient slashes =>
    s.slashReveal H tx.now tx.sender account privateKey rewardRecipient slashes

def Reachable : Rln → (now : Nat) → Prop :=
  Runs.Reachable Tx.now (fun s => ∃ owner register, s = initialized owner register)
    fun s tx s' => s.apply H tx = .ok s'

/-- The transactions of a list, all successful, lead from one state and time to another. -/
def Path (s : Rln) (t : Nat) (l : List Tx) (s' : Rln) (t' : Nat) : Prop :=
  Runs.Trace Tx.now (fun s tx s' => s.apply H tx = .ok s') (fun _ tx _ => [tx]) s t s' t' l

def Tx.Commits (tx : Tx) (account : Address) (key : Bytes32) : Prop :=
  ∃ hash, tx.action = .slashCommit account hash ∧ key = H.slashCommitmentKey tx.sender hash

def Tx.Reveals (tx : Tx) (account : Address) (key : Bytes32) : Prop :=
  ∃ privateKey rewardRecipient slashes,
    tx.action = .slashReveal account privateKey rewardRecipient slashes ∧
      key = H.slashCommitmentKey tx.sender (H.secret privateKey rewardRecipient)

variable {H} {s} {s' : Rln}

-- One transaction

theorem revealStartTime_ok (h : s.revealStartTime now account = .ok start) :
    now ≤ start ∧ (0 < s.lastRevealStartTime account →
      s.lastRevealStartTime account + s.slashRevealWindowTime ≤ start) := by
  simp only [revealStartTime] at h
  split at h
  · cases h
    exact ⟨Nat.le_refl _, by omega⟩
  · simp only [bind_eq_ok, Checked.add_eq_ok] at h
    obtain ⟨_, ⟨-, rfl⟩, ⟨⟩⟩ := h
    split <;> exact ⟨by omega, by omega⟩

@[simp] theorem setCommitment_self :
    (s.setCommitment account key start).slashCommitments account key = start := by
  simp [setCommitment]

theorem setCommitment_other (h : account ≠ account' ∨ key ≠ key') :
    (s.setCommitment account key start).slashCommitments account' key' =
      s.slashCommitments account' key' := by
  by_cases ha : account' = account
  · subst ha
    have hk : key' ≠ key := by
      rintro rfl
      simp at h
    simp [setCommitment, hk]
  · simp [setCommitment, ha]

theorem commit_ok (hc : tx.Commits H account key) (h : s.apply H tx = .ok s') :
    ∃ start, s.revealStartTime tx.now account = .ok start ∧ s' = s.enqueue account key start := by
  obtain ⟨hash, ha, rfl⟩ := hc
  simp only [apply, ha, slashCommit, bind_eq_ok] at h
  obtain ⟨start, hstart, ⟨⟩⟩ := h
  exact ⟨start, hstart, rfl⟩

theorem reveal_ok (hr : tx.Reveals H account key) (h : s.apply H tx = .ok s') :
    s.slashCommitments account key ≠ 0 ∧ s.slashCommitments account key ≤ tx.now ∧
      s'.slashCommitments account key = 0 := by
  obtain ⟨privateKey, recipient, slashes, ha, rfl⟩ := hr
  simp only [apply, ha, slashReveal, bind_eq_ok, failIf_eq_ok, Nat.not_lt] at h
  obtain ⟨-, hstart, -, hnow, -, -, -, -, -, -, ⟨⟩⟩ := h
  exact ⟨hstart, hnow, setCommitment_self⟩

/-- What a transaction does to the queue of an account and to one commitment in it. -/
structure Queues (H : Hashes) (tx : Tx) (s s' : Rln) (account : Address) (key : Bytes32) :
    Prop where
  lastRevealStartTime : s.lastRevealStartTime account ≤ s'.lastRevealStartTime account
  commitment : s'.slashCommitments account key = s.slashCommitments account key ∨
    s'.slashCommitments account key = 0 ∨
      tx.Commits H account key ∧ s.lastRevealStartTime account ≤ s'.slashCommitments account key
  slashRevealWindowTime : 0 < s.slashRevealWindowTime → 0 < s'.slashRevealWindowTime

theorem slashCommit_queues (hc : tx.Commits H account' key') (h : s.apply H tx = .ok s') :
    Queues H tx s s' account key := by
  obtain ⟨start, hstart, rfl⟩ := commit_ok hc h
  have hle : s.lastRevealStartTime account' ≤ start := by
    have := revealStartTime_ok hstart
    omega
  by_cases haccount : account = account'
  · subst haccount
    refine ⟨by simpa [enqueue] using hle, ?_, id⟩
    by_cases hkey : key' = key
    · subst hkey
      exact .inr (.inr ⟨hc, by simpa [enqueue] using hle⟩)
    · exact .inl (setCommitment_other (.inr hkey))
  · refine ⟨?_, .inl (setCommitment_other (.inl (Ne.symm haccount))), id⟩
    simp [enqueue, haccount]

theorem slashReveal_queues (h : s.slashReveal H now sender account' pk recipient slashes = .ok s') :
    Queues H tx s s' account key := by
  simp only [slashReveal, bind_eq_ok, failIf_eq_ok] at h
  obtain ⟨-, -, -, -, -, -, -, -, -, -, ⟨⟩⟩ := h
  refine ⟨Nat.le_refl _, ?_, id⟩
  by_cases hself : account' = account ∧ H.slashCommitmentKey sender (H.secret pk recipient) = key
  · obtain ⟨rfl, rfl⟩ := hself
    exact .inr (.inl setCommitment_self)
  · exact .inl (setCommitment_other (not_and_or.mp hself))

theorem apply_queues (h : s.apply H tx = .ok s') (account : Address) (key : Bytes32) :
    Queues H tx s s' account key := by
  cases ha : tx.action with
  | slashCommit account' hash' => exact slashCommit_queues ⟨hash', ha, rfl⟩ h
  | slashReveal account' pk recipient slashes =>
    simp only [apply, ha] at h
    exact slashReveal_queues h
  | setSlashRevealWindowTime windowTime =>
    simp only [apply, ha, setSlashRevealWindowTime, bind_eq_ok, failIf_eq_ok] at h
    obtain ⟨-, -, -, hwindow, ⟨⟩⟩ := h
    exact ⟨Nat.le_refl _, .inl rfl, fun _ => by simp only; omega⟩
  | register identityCommitment user =>
    simp only [apply, ha, register, bind_eq_ok] at h
    obtain ⟨-, -, -, -, ⟨⟩⟩ := h
    exact ⟨Nat.le_refl _, .inl rfl, id⟩
  | grantRole | revokeRole =>
    simp only [apply, ha, grantRole, revokeRole, bind_eq_ok] at h
    obtain ⟨-, -, ⟨⟩⟩ := h
    exact ⟨Nat.le_refl _, .inl rfl, id⟩
  | renounceRole =>
    simp only [apply, ha, renounceRole] at h
    cases h
    exact ⟨Nat.le_refl _, .inl rfl, id⟩

-- Whole runs

theorem Reachable.slashRevealWindowTime_pos (h : Reachable H s t) :
    0 < s.slashRevealWindowTime := by
  refine Runs.Reachable.invariant (I := fun s _ => 0 < s.slashRevealWindowTime) ?_ ?_ h
  · rintro s t ⟨owner, registrar, rfl⟩
    simp [initialized]
  · intro s t tx s' hs _ h
    exact (apply_queues h 0 0).slashRevealWindowTime hs

theorem Path.lastRevealStartTime_le (hp : Path H s t l s' t') :
    s.lastRevealStartTime account ≤ s'.lastRevealStartTime account := by
  refine Runs.Trace.invariant
    (I := fun s' _ _ => s.lastRevealStartTime account ≤ s'.lastRevealStartTime account)
    hp (Nat.le_refl _) ?_
  intro s₁ t₁ l tx s₂ hle _ h
  exact Nat.le_trans hle (apply_queues h account 0).lastRevealStartTime

/-- Once an account's queue has come to `start`, a commitment no earlier than that, or none, is
there from then on. -/
theorem Path.commitment_ge (hp : Path H s t l s' t') (hlast : start ≤ s.lastRevealStartTime account)
    (hs : s.slashCommitments account key = 0 ∨ start ≤ s.slashCommitments account key) :
    s'.slashCommitments account key = 0 ∨ start ≤ s'.slashCommitments account key := by
  refine (Runs.Trace.invariant
    (I := fun s _ _ => start ≤ s.lastRevealStartTime account ∧
      (s.slashCommitments account key = 0 ∨ start ≤ s.slashCommitments account key))
    hp ⟨hlast, hs⟩ ?_).2
  rintro s₁ t₁ l tx s₂ ⟨hlast, hs⟩ - h
  have hq := apply_queues h account key
  refine ⟨Nat.le_trans hlast hq.lastRevealStartTime, ?_⟩
  rcases hq.commitment with heq | heq | ⟨-, hle⟩
  · rwa [heq]
  · exact .inl heq
  · exact .inr (Nat.le_trans hlast hle)

theorem Path.no_commitment (hp : Path H s t l s' t') (hno : ∀ tx ∈ l, ¬ tx.Commits H account key)
    (hs : s.slashCommitments account key = 0) : s'.slashCommitments account key = 0 := by
  refine Runs.Trace.invariant
    (I := fun s _ l => (∀ tx ∈ l, ¬ tx.Commits H account key) → s.slashCommitments account key = 0)
    hp (fun _ => hs) ?_ hno
  intro s₁ t₁ l tx s₂ ih _ h hno
  rcases (apply_queues h account key).commitment with heq | heq | ⟨hc, -⟩
  · rw [heq, ih fun tx htx => hno tx (List.mem_append_left _ htx)]
  · exact heq
  · exact absurd hc (hno tx (by simp))

structure CommitStep (H : Hashes) (s : Rln) (t : Nat) (tx : Tx) (account : Address)
    (key : Bytes32) (s' : Rln) (start : Nat) : Prop where
  time : t ≤ tx.now
  commits : tx.Commits H account key
  succeeds : s.apply H tx = .ok s'
  starts : s'.slashCommitments account key = start

structure RevealStep (H : Hashes) (s : Rln) (t : Nat) (tx : Tx) (account : Address)
    (key : Bytes32) (s' : Rln) : Prop where
  time : t ≤ tx.now
  reveals : tx.Reveals H account key
  succeeds : s.apply H tx = .ok s'

theorem CommitStep.of_revealStartTime (ht : t ≤ tx.now) (hc : tx.Commits H account key)
    (h : s.revealStartTime tx.now account = .ok start) :
    CommitStep H s t tx account key (s.enqueue account key start) start := by
  obtain ⟨hash', ha, rfl⟩ := hc
  refine ⟨ht, ⟨hash', ha, rfl⟩, ?_, setCommitment_self⟩
  simp only [apply, ha, slashCommit, h, ok_bind]

theorem CommitStep.spec (h : CommitStep H s t tx account key s' start) :
    s.revealStartTime tx.now account = .ok start ∧ s'.lastRevealStartTime account = start := by
  obtain ⟨start', hstart, rfl⟩ := commit_ok h.commits h.succeeds
  obtain rfl : start' = start := by simpa [enqueue] using h.starts
  exact ⟨hstart, by simp [enqueue]⟩

theorem CommitStep.start_pos (h : CommitStep H s t tx account key s' start) : 0 < start :=
  Nat.lt_of_lt_of_le tx.now_pos (revealStartTime_ok h.spec.1).1

/-- A later commit for an account waits for a full window after the earlier one's start. -/
theorem CommitStep.queued (h₁ : CommitStep H s t c₁ account key₁ s₁ start₁)
    (hp : Path H s₁ c₁.now l s₂ t₂) (h₂ : CommitStep H s₂ t₂ c₂ account key₂ s₃ start₂) :
    start₁ + s₂.slashRevealWindowTime ≤ start₂ := by
  have hlast : start₁ ≤ s₂.lastRevealStartTime account :=
    h₁.spec.2 ▸ hp.lastRevealStartTime_le
  have hqueued := (revealStartTime_ok h₂.spec.1).2 (Nat.lt_of_lt_of_le h₁.start_pos hlast)
  omega

theorem CommitStep.reveal_ge (h₂ : CommitStep H s t c₂ account key s₃ start)
    (hp : Path H s₃ c₂.now l s₄ t₄) (hr : RevealStep H s₄ t₄ r account key s₅) : start ≤ r.now := by
  obtain ⟨hne, hnow, -⟩ := reveal_ok hr.reveals hr.succeeds
  rcases hp.commitment_ge (Nat.le_of_eq h₂.spec.2.symm) (.inr (Nat.le_of_eq h₂.starts.symm)) with
    h0 | hge
  · exact absurd h0 hne
  · exact Nat.le_trans hge hnow

/-- From any reachable state on: of two commits for an account the later one starts a whole
reveal window, at its length of then, after the earlier one, and no reveal of it succeeds before
that, whatever comes in between; and between two reveals under one key it is committed anew. -/
theorem slash_queue_protects (hs : Reachable H s t) (account : Address) :
    (∀ c₁ key₁ s₁ start₁, CommitStep H s t c₁ account key₁ s₁ start₁ →
      ∀ l s₂ t₂, Path H s₁ c₁.now l s₂ t₂ →
      ∀ c₂ key₂ s₃ start₂, CommitStep H s₂ t₂ c₂ account key₂ s₃ start₂ →
        start₁ + s₂.slashRevealWindowTime ≤ start₂ ∧ start₁ < start₂ ∧
        ∀ l' s₄ t₄, Path H s₃ c₂.now l' s₄ t₄ →
        ∀ r s₅, RevealStep H s₄ t₄ r account key₂ s₅ →
          ¬ (start₁ ≤ r.now ∧ r.now < start₁ + s₂.slashRevealWindowTime)) ∧
    (∀ r₁ key s₁, RevealStep H s t r₁ account key s₁ →
      ∀ l s₂ t₂, Path H s₁ r₁.now l s₂ t₂ →
      ∀ r₂ s₃, RevealStep H s₂ t₂ r₂ account key s₃ → ∃ c ∈ l, c.Commits H account key) := by
  refine ⟨?_, ?_⟩
  · intro c₁ key₁ s₁ start₁ h₁ l s₂ t₂ hp c₂ key₂ s₃ start₂ h₂
    have hqueued := h₁.queued hp h₂
    have hpos : 0 < s₂.slashRevealWindowTime :=
      Reachable.slashRevealWindowTime_pos (.trace (.step hs h₁.time h₁.succeeds) hp)
    refine ⟨hqueued, by omega, ?_⟩
    rintro l' s₄ t₄ hp' r s₅ hr ⟨-, hlt⟩
    have := h₂.reveal_ge hp' hr
    omega
  · intro r₁ key s₁ h₁ l s₂ t₂ hp r₂ s₃ h₂
    by_contra hno
    simp only [not_exists, not_and] at hno
    have hgone := hp.no_commitment hno (reveal_ok h₁.reveals h₁.succeeds).2.2
    exact (reveal_ok h₂.reveals h₂.succeeds).1 hgone

theorem slash_queue_protects_first_committer :
    let H : Hashes := ⟨fun privateKey _ => privateKey, fun _ hash => hash, id⟩
    let c₁ : Tx := ⟨5, 100, by decide, .slashCommit 7 11⟩
    let c₂ : Tx := ⟨6, 100, by decide, .slashCommit 7 12⟩
    ∃ s₁ s₂, CommitStep H (initialized 1 2) 0 c₁ 7 11 s₁ 100 ∧
      CommitStep H s₁ 100 c₂ 7 12 s₂ 3700 ∧
      ∀ l s t, Path H s₂ 100 l s t → ∀ r s', RevealStep H s t r 7 12 s' →
        ¬ (100 ≤ r.now ∧ r.now < 3700) := by
  intro H c₁ c₂
  have hs : Reachable H (initialized 1 2) 0 := .init 0 ⟨1, 2, rfl⟩
  have h₁ : CommitStep H (initialized 1 2) 0 c₁ 7 11 _ 100 :=
    .of_revealStartTime (by decide) ⟨11, rfl, rfl⟩ rfl
  have h₂ : CommitStep H ((initialized 1 2).enqueue 7 11 100) 100 c₂ 7 12 _ 3700 :=
    .of_revealStartTime (by decide) ⟨12, rfl, rfl⟩ rfl
  refine ⟨_, _, h₁, h₂, ?_⟩
  exact ((slash_queue_protects hs 7).1 _ _ _ _ h₁ _ _ _ .nil _ _ _ _ h₂).2.2

end Rln

end StatusNetwork.Slashing
