import StatusNetwork.Base.HashChain
import StatusNetwork.Messaging.L2MessageService
import StatusNetwork.Rollup.Effects

/-!
# Messages from L1 to L2

The two chains take steps in any order. L1 chains the hashes of the messages it sends into its
rolling hashes, L2 those that the message setter anchors; a finalization compares the ends of both.
If they agree then so do the messages.
-/

namespace StatusNetwork.Messaging

open Rollup (LineaRollup)
open HashChain (chain chain_concat chain_append)

structure Chains (D : Type) where
  l1 : LineaRollup D
  l2 : L2MessageService D

namespace Chains

inductive Tx (D : Type) [Zero D]
  | l1 (tx : LineaRollup.Tx D)
  | l2 (tx : L2MessageService.Tx D)

inductive Mark (D : Type)
  | added (messageHash : D)
  | received (messageHash : D)

def Mark.added? : Mark D → Option D
  | .added messageHash => some messageHash
  | .received _ => none

def Mark.received? : Mark D → Option D
  | .added _ => none
  | .received messageHash => some messageHash

def added (log : List (Mark D)) : List D := log.filterMap Mark.added?

def received (log : List (Mark D)) : List D := log.filterMap Mark.received?

@[simp] theorem added_append : added (log ++ log') = added log ++ added log' :=
  List.filterMap_append

@[simp] theorem received_append : received (log ++ log') = received log ++ received log' :=
  List.filterMap_append

@[simp] theorem added_map_added (l : List D) : added (l.map .added) = l := by
  induction l with
  | nil => rfl
  | cons a l ih => exact congrArg (a :: ·) ih

@[simp] theorem received_map_received (l : List D) : received (l.map .received) = l := by
  induction l with
  | nil => rfl
  | cons a l ih => exact congrArg (a :: ·) ih

@[simp] theorem received_map_added (l : List D) : received (l.map .added) = [] := by
  simp [received, Mark.received?]

variable {D : Type} [DecidableEq D] [Zero D] (H : Rollup.Hashing D)

/-- The hashes of a list that are not in the inbox yet, each at its first occurrence. -/
def unknowns (inbox : D → InboxStatus) : List D → List D
  | [] => []
  | messageHash :: rest =>
    if inbox messageHash = .unknown then
      messageHash :: unknowns (Function.update inbox messageHash .received) rest
    else unknowns inbox rest

def hashesOf (events : List (Rollup.Event D)) : List D :=
  events.filterMap fun
    | .sent message => some (H.hashMessage message)
    | _ => none

def marks (s : Chains D) (tx : Tx D) (s' : Chains D) : List (Mark D) :=
  match tx with
  | .l1 tx => (hashesOf H (s.l1.events tx s'.l1)).map .added
  | .l2 tx =>
    match tx.call with
    | .anchorL1L2MessageHashes messageHashes _ _ _ =>
      (unknowns s.l2.inboxL1L2MessageStatus messageHashes).map .received
    | _ => []

def apply (s : Chains D) : Tx D → Except (Rollup.Revert D) (Chains D)
  | .l1 tx => (s.l1.apply H tx).map fun l1 => { s with l1 }
  | .l2 tx => ((s.l2.apply H.toHashing tx).mapError .messaging).map fun l2 => { s with l2 }

def Step (s : Chains D) (tx : Tx D) (s' : Chains D) : Prop := s.apply H tx = .ok s'

def Initial (s : Chains D) : Prop := s.l1.Initial H ∧ s.l2.Initial

/-- The clocks of the chains do not order their steps. -/
def Run (s : Chains D) (log : List (Mark D)) : Prop :=
  Runs.Logged (fun _ => 0) (Initial H) (Step H) (marks H) s 0 log

def Continues (s s' : Chains D) (log : List (Mark D)) : Prop :=
  Runs.Trace (fun _ => 0) (Step H) (marks H) s 0 s' 0 log

/-- Two moments of one run with what was logged by then, whichever comes first. -/
def SameRun (s : Chains D) (log : List (Mark D)) (s' : Chains D) (log' : List (Mark D)) : Prop :=
  (Run H s log ∧ ∃ more, Continues H s s' more ∧ log' = log ++ more) ∨
    (Run H s' log' ∧ ∃ more, Continues H s' s more ∧ log = log' ++ more)

variable {H}

-- The rolling hashes of L1

variable (H) in
/-- The rolling hashes are those of the hashes added so far. -/
structure Adds (hashes : List D) (l1 : LineaRollup D) : Prop where
  next : l1.nextMessageNumber = hashes.length + 1
  rolling : ∀ n ≤ hashes.length, l1.rollingHashes n = chain H.efficientKeccak 0 (hashes.take n)
  beyond : ∀ n, hashes.length < n → l1.rollingHashes n = 0

omit [DecidableEq D] in
theorem Adds.concat {l1 l1' : LineaRollup D} (h : Adds H hashes l1)
    (hnumber : message.messageNumber = l1.nextMessageNumber)
    (hnext : l1'.nextMessageNumber = l1.nextMessageNumber + 1)
    (hrolling : l1'.rollingHashes = (l1.addRollingHash H.toHashing message.messageNumber
      (H.hashMessage message)).rollingHashes) : Adds H (hashes ++ [H.hashMessage message]) l1' := by
  have hn : message.messageNumber = hashes.length + 1 := hnumber.trans h.next
  have hupd : ∀ n, l1'.rollingHashes n = if n = hashes.length + 1
      then H.efficientKeccak (chain H.efficientKeccak 0 hashes) (H.hashMessage message)
      else l1.rollingHashes n := by
    intro n
    have hlast := h.rolling hashes.length le_rfl
    rw [List.take_length] at hlast
    simp only [hrolling, L1MessageManager.addRollingHash, hn, Nat.add_sub_cancel, hlast,
      Function.update_apply]
  refine ⟨by rw [hnext, h.next]; simp, fun n hle => ?_, fun n hlt => ?_⟩
  · rw [hupd]
    simp only [List.length_append, List.length_singleton] at hle
    split
    · subst n
      rw [← chain_concat H.efficientKeccak, ← List.length_singleton, ← List.length_append,
        List.take_length]
    · have hold : n ≤ hashes.length := by omega
      rw [h.rolling n hold, List.take_append_of_le_length hold]
  · simp only [List.length_append, List.length_singleton] at hlt
    rw [hupd, if_neg (by omega)]
    exact h.beyond n (by omega)

omit [DecidableEq D] in
theorem Adds.keep {l1 l1' : LineaRollup D} (h : Adds H hashes l1)
    (hnext : l1'.nextMessageNumber = l1.nextMessageNumber)
    (hrolling : l1'.rollingHashes = l1.rollingHashes) : Adds H hashes l1' :=
  ⟨hnext ▸ h.next, hrolling ▸ h.rolling, hrolling ▸ h.beyond⟩

theorem Adds.step {l1 l1' : LineaRollup D} (h : Adds H hashes l1)
    (heffect : LineaRollup.Effect H l1 tx l1') :
    Adds H (hashes ++ hashesOf H (l1.events tx l1')) l1' := by
  cases heffect with
  | sends message balance hlog hnumber hs =>
    rw [hlog]
    subst hs
    exact h.concat hnumber rfl rfl
  | settles _ _ _ _ _ hlog hs | submits _ hlog _ _ _ _ _ hs | finalizes _ _ _ _ hlog _ _ hs
  | claims _ _ _ _ hlog _ _ _ _ hs | finishes _ _ hlog _ _ _ hs =>
    have hnone : hashes ++ hashesOf H (l1.events tx l1') = hashes := by
      rw [hlog]
      exact List.append_nil hashes
    rw [hnone]
    subst hs
    exact h.keep rfl rfl

-- The inbox of L2

omit [Zero D] in
/-- The loop chains the hashes that are new, counts them and marks them as received. -/
theorem anchor_loop_ok
    (h : hashes.foldlM (L2MessageService.anchorMessageHash H.toHashing) a = .ok a') :
    a'.rollingHash =
        chain H.efficientKeccak a.rollingHash (unknowns a.inboxL1L2MessageStatus hashes) ∧
      a'.currentL1MessageNumber =
        a.currentL1MessageNumber + (unknowns a.inboxL1L2MessageStatus hashes).length ∧
      ∀ m, a'.inboxL1L2MessageStatus m = .unknown ↔
        a.inboxL1L2MessageStatus m = .unknown ∧ m ∉ unknowns a.inboxL1L2MessageStatus hashes := by
  induction hashes generalizing a with
  | nil =>
    cases h
    simp [unknowns]
  | cons first rest ih =>
    simp only [List.foldlM_cons, L2MessageService.anchorMessageHash, bind_eq_ok] at h
    obtain ⟨a₁, hfirst, h⟩ := h
    obtain ⟨hrolling, hnumber, hinbox⟩ := ih h
    split at hfirst
    · rename_i hnew
      simp only [bind_eq_ok, Checked.add_eq_ok] at hfirst
      obtain ⟨_, ⟨-, rfl⟩, ⟨⟩⟩ := hfirst
      simp only [unknowns, hnew, if_true]
      refine ⟨hrolling, by simp only [hnumber, List.length_cons]; omega, fun m => ?_⟩
      simp only [hinbox, Function.update_apply, List.mem_cons, not_or]
      by_cases hm : m = first <;> simp [hm]
    · rename_i hknown
      cases hfirst
      simp only [unknowns, hknown, if_false]
      exact ⟨hrolling, hnumber, hinbox⟩

variable (H) in
/-- The last rolling hash is that of the hashes received so far. -/
structure Receives (hashes : List D) (l2 : L2MessageService D) : Prop where
  last : l2.lastAnchoredL1MessageNumber = hashes.length
  rolling : l2.l1RollingHashes hashes.length = chain H.efficientKeccak 0 hashes
  inbox : ∀ m, l2.inboxL1L2MessageStatus m = .unknown ↔ m ∉ hashes

omit [DecidableEq D] in
theorem Receives.keep {l2 l2' : L2MessageService D} (h : Receives H hashes l2)
    (hlast : l2'.lastAnchoredL1MessageNumber = l2.lastAnchoredL1MessageNumber)
    (hrolling : l2'.l1RollingHashes = l2.l1RollingHashes)
    (hinbox : ∀ m, l2'.inboxL1L2MessageStatus m = .unknown ↔
      l2.inboxL1L2MessageStatus m = .unknown) : Receives H hashes l2' :=
  ⟨hlast.trans h.last, hrolling ▸ h.rolling, fun m => (hinbox m).trans (h.inbox m)⟩

theorem Receives.anchor {l2 l2' : L2MessageService D} (h : Receives H hashes l2)
    (hanchor : l2.anchorL1L2MessageHashes H.toHashing e messageHashes n n' final = .ok l2') :
    Receives H (hashes ++ unknowns l2.inboxL1L2MessageStatus messageHashes) l2' := by
  simp only [L2MessageService.anchorL1L2MessageHashes, bind_eq_ok] at hanchor
  obtain ⟨-, -, -, -, -, -, -, -, -, -, _, -, -, -, a, hloop, -, -, -, -, hstore⟩ := hanchor
  obtain ⟨hrolling, hnumber, hinbox⟩ := anchor_loop_ok hloop
  simp only [h.last, h.rolling, ← chain_append, ← List.length_append] at hrolling hnumber
  have hinbox' : ∀ m, a.inboxL1L2MessageStatus m = .unknown ↔
      m ∉ hashes ++ unknowns l2.inboxL1L2MessageStatus messageHashes := by
    intro m
    rw [hinbox, h.inbox, List.mem_append, not_or]
  split at hstore
  · cases hstore
    exact ⟨hnumber, by simp [← hnumber, hrolling], hinbox'⟩
  · rename_i hsame
    -- nothing was new
    have hnil : unknowns l2.inboxL1L2MessageStatus messageHashes = [] := by
      have hlen := hnumber.symm.trans ((not_not.mp hsame).trans h.last)
      simpa using hlen
    cases hstore
    rw [hnil, List.append_nil] at hinbox' ⊢
    exact ⟨h.last, h.rolling, hinbox'⟩

variable (H) in
theorem added_marks_l2 (s s' : Chains D) (tx : L2MessageService.Tx D) :
    added (marks H s (.l2 tx) s') = [] := by
  cases hcall : tx.call <;> simp [marks, hcall, added, Mark.added?]

theorem Receives.step (h : Receives H hashes s.l2) (hstep : s.l2.apply H.toHashing tx = .ok s'.l2) :
    Receives H (hashes ++ received (marks H s (.l2 tx) s')) s'.l2 := by
  cases hcall : tx.call with
  | secure action =>
    simp only [L2MessageService.apply, hcall, map_eq_ok] at hstep
    obtain ⟨security, -, hs⟩ := hstep
    simp only [marks, hcall, received, List.filterMap_nil, List.append_nil, ← hs]
    exact h.keep rfl rfl fun _ => Iff.rfl
  | anchorL1L2MessageHashes messageHashes n n' final =>
    simp only [L2MessageService.apply, hcall] at hstep
    simp only [marks, hcall, received_map_received]
    exact h.anchor hstep
  | claimMessage message =>
    simp only [L2MessageService.apply, hcall, L2MessageService.claimMessage, bind_eq_ok,
      failIf_eq_ok, Except.ok.injEq, not_not] at hstep
    obtain ⟨-, -, -, hreceived, hs⟩ := hstep
    simp only [marks, hcall, received, List.filterMap_nil, List.append_nil, ← hs]
    refine h.keep rfl rfl fun m => ?_
    by_cases hm : m = H.hashMessage message <;> simp [hm, hreceived]

-- Runs

variable (H) in
/-- What each chain has recorded of its messages. -/
structure Recorded (s : Chains D) (log : List (Mark D)) : Prop where
  noneReceived : s.l1.NoneReceived
  adds : Adds H (added log) s.l1
  receives : Receives H (received log) s.l2

theorem Run.recorded (h : Run H s log) : Recorded H s log := by
  refine Runs.Logged.invariant (I := fun s _ log => Recorded H s log) ?_ ?_ h
  · rintro s - ⟨hl1, hstatus, hlast, hrolling⟩
    refine ⟨hl1.noneReceived, ?_, hlast, by rw [hrolling]; rfl, by simp [hstatus, received]⟩
    obtain ⟨self, balance, now, data, livenessRecoveryOperator, yieldManager, hl1⟩ := hl1
    simp only [LineaRollup.initialized, bind_eq_ok, Except.ok.injEq] at hl1
    obtain ⟨-, -, limiter, -, -, -, roles, -, -, -, -, -, hs⟩ := hl1
    rw [← hs]
    exact ⟨rfl, fun n hn => by simp [added], fun n hn => rfl⟩
  · rintro s - log tx s' ⟨hnone, hadds, hreceives⟩ - hstep
    cases tx with
    | l1 tx =>
      simp only [Step, apply, map_eq_ok] at hstep
      obtain ⟨l1, happly, rfl⟩ := hstep
      have heffect := LineaRollup.apply_effect hnone happly
      refine ⟨heffect.noneReceived hnone, ?_, ?_⟩
      · simpa [marks] using hadds.step heffect
      · simpa [marks] using hreceives
    | l2 tx =>
      simp only [Step, apply, map_eq_ok, mapError_eq_ok] at hstep
      obtain ⟨l2, happly, rfl⟩ := hstep
      refine ⟨hnone, ?_, ?_⟩
      · rw [added_append, added_marks_l2, List.append_nil]
        exact hadds
      · rw [received_append]
        exact hreceives.step happly

theorem SameRun.runs (h : SameRun H s log s' log') : Run H s log ∧ Run H s' log' := by
  rcases h with ⟨hrun, more, hmore, rfl⟩ | ⟨hrun, more, hmore, rfl⟩
  · exact ⟨hrun, hrun.trace hmore⟩
  · exact ⟨hrun.trace hmore, hrun⟩

theorem validate_ok {l1 : LineaRollup D} (hv : l1.validateL2ComputedRollingHash n h = .ok ()) :
    (n = 0 ∧ h = 0) ∨ (h ≠ 0 ∧ l1.rollingHashes n = h) := by
  unfold LineaRollup.validateL2ComputedRollingHash at hv
  split at hv
  · exact .inl ⟨‹_›, by simpa using hv⟩
  · simp only [bind_eq_ok, failIf_eq_ok, not_not] at hv
    obtain ⟨-, hne, hrolling⟩ := hv
    exact .inr ⟨hne, hrolling⟩

/-- If a rolling hash that a finalization accepts is the last one on L2, then what L2 has received
is, in order, what L1 sent first. -/
theorem received_eq_sent (hinj : Function.Injective2 H.efficientKeccak) {s s' : Chains D}
    (hmoments : SameRun H s log s' log')
    (hvalid : s.l1.validateL2ComputedRollingHash n h = .ok ())
    (hlast : s'.l2.lastAnchoredL1MessageNumber = n) (hhash : s'.l2.l1RollingHashes n = h) :
    n ≤ (added log).length ∧ received log' = (added log).take n ∧
      ∀ m, s'.l2.inboxL1L2MessageStatus m ≠ .unknown ↔ m ∈ received log' := by
  obtain ⟨hrun, hrun'⟩ := hmoments.runs
  obtain ⟨-, hadds, -⟩ := hrun.recorded
  obtain ⟨-, -, hreceives⟩ := hrun'.recorded
  have hn : (received log').length = n := hreceives.last.symm.trans hlast
  have hchain : chain H.efficientKeccak 0 (received log') = h := by
    rw [← hreceives.rolling, hn, hhash]
  have hsent : n ≤ (added log).length ∧ s.l1.rollingHashes n = h := by
    rcases validate_ok hvalid with ⟨rfl, rfl⟩ | ⟨hne, hrolling⟩
    · exact ⟨Nat.zero_le _, hadds.rolling 0 (Nat.zero_le _)⟩
    · refine ⟨Nat.le_of_not_lt fun hlt => hne ?_, hrolling⟩
      rw [← hrolling, hadds.beyond n hlt]
  obtain ⟨hle, hrolling⟩ := hsent
  refine ⟨hle, HashChain.chain_injective 0 hinj ?_ ?_, fun m => ?_⟩
  · rw [hn, List.length_take_of_le hle]
  · rw [hchain, ← hrolling, hadds.rolling n hle]
  · rw [ne_eq, hreceives.inbox, not_not]

def firstHash : Rollup.Word := .message ⟨3, 4, 0, 5, 1, []⟩

/-- One message, sent on L1 and anchored on L2. -/
theorem received_eq_sent_one_message :
    ∃ s log, Run Rollup.symbolic s log ∧ received log = [firstHash] := by
  have h₀ : Initial Rollup.symbolic ⟨Rollup.deployed,
      ⟨⟨⟨fun _ _ => true⟩, .initialized [] []⟩, fun _ => .unknown, 0, fun _ => 0⟩⟩ :=
    ⟨Rollup.deployed_initial, rfl, rfl, rfl⟩
  obtain ⟨s, log, hrun, hobs⟩ : ∃ s log, Run Rollup.symbolic s log ∧
      (s.l1.rollingHashes 1, s.l2.lastAnchoredL1MessageNumber, s.l2.l1RollingHashes 1, added log) =
        (.keccak 0 firstHash, 1, .keccak 0 firstHash, [firstHash]) :=
    Runs.exists_logged (apply Rollup.symbolic) (fun _ _ _ h => h) 0 h₀
      [.l1 ⟨⟨3, 5, 0, by decide⟩, .sendMessage 4 0 []⟩,
        .l2 ⟨⟨3, 0, 0, by decide⟩, .anchorL1L2MessageHashes [firstHash] 1 1 (.keccak 0 firstHash)⟩]
      (fun s log => (s.l1.rollingHashes 1, s.l2.lastAnchoredL1MessageNumber, s.l2.l1RollingHashes 1,
        added log)) (by decide +kernel)
  simp only [Prod.mk.injEq] at hobs
  obtain ⟨hrolling, hlast, hhash, hadded⟩ := hobs
  have hvalid : s.l1.validateL2ComputedRollingHash 1 (.keccak 0 firstHash) = .ok () := by
    rw [LineaRollup.validateL2ComputedRollingHash, hrolling]
    rfl
  have hsame := received_eq_sent Rollup.symbolic_injective
    (.inl ⟨hrun, [], .nil, (List.append_nil _).symm⟩) hvalid hlast hhash
  exact ⟨s, log, hrun, by rw [hsame.2.1, hadded]; rfl⟩

end Chains

end StatusNetwork.Messaging
