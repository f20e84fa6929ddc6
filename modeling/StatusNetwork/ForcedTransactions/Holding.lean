import StatusNetwork.Base.Numbering
import StatusNetwork.ForcedTransactions.App

/-!
# What was sent is held

What was sent to the sequencer is either settled, so recorded and put into the processed queue, or
it waits in the queue of the status updater and the safe block number is below its block. L1, the
sequencer, the start of the coordinator and its fetcher keep this, as long as the sequencer
processes forced transactions in their order and each in a block of its own, and a restart leaves
nothing behind that was sent and is not recorded.
-/

namespace StatusNetwork.ForcedTransactions

open Coordinator (ForcedTransactionInclusionStatus)
open Numbering (Consecutive)

variable {config : Config} {s s' : State} {a : App} {m : SafeBlockNumberManager}

-- The manager

/-- The forced transaction is flagged as sent and conflation is locked before its block. -/
def Held (m : SafeBlockNumberManager) (statuses : List ForcedTransactionInclusionStatus)
    (n : Nat) : Prop :=
  n ∈ m.ftxInSequencerForProcessing ∧ ∃ b, m.safeBlockNumber = some b ∧ 0 < b ∧
    ∀ status ∈ statuses, status.ftxNumber = n → b < status.blockNumber

namespace SafeBlockNumberManager

theorem isBlockSafeToConflate_iff :
    m.isBlockSafeToConflate k = true ↔ ∀ b, m.safeBlockNumber = some b → k ≤ b := by
  cases h : m.safeBlockNumber with
  | none | some b => simp [isBlockSafeToConflate, h]

theorem locked_iff : m.locked = true ↔ ∃ b, m.safeBlockNumber = some b ∧ 0 < b := by
  cases h : m.safeBlockNumber with
  | none | some b => simp [locked, h]

theorem ftxSentToSequencer_ok (h : m.ftxSentToSequencer ftx = .ok m') :
    m.locked = true ∧
      m' = { m with ftxInSequencerForProcessing := m.ftxInSequencerForProcessing ++ ftx } := by
  simp only [ftxSentToSequencer] at h
  split at h
  · rename_i hlocked
    exact ⟨hlocked, (Except.ok.inj h).symm⟩
  · cases h

theorem ftxProcessedBySequencer_ok (h : m.ftxProcessedBySequencer n b = .ok m') :
    m'.ftxInSequencerForProcessing = m.ftxInSequencerForProcessing.filter (n < ·) ∧
      (m'.safeBlockNumber = some b ∨
        m'.safeBlockNumber = none ∧ m'.ftxInSequencerForProcessing = []) := by
  simp only [ftxProcessedBySequencer] at h
  split at h
  · cases h
  · obtain rfl := Except.ok.inj h
    refine ⟨rfl, ?_⟩
    split
    · rename_i hempty
      exact .inr ⟨rfl, List.isEmpty_iff.mp (Bool.and_eq_true_iff.mp hempty).1⟩
    · exact .inl rfl

theorem resumeAt_ok (h : m.resumeAt ftxRecord = .ok m') (hb : m'.safeBlockNumber = some b) :
    m.safeBlockNumber = some b ∨ ∃ r ∈ ftxRecord, r.simulatedExecutionBlockNumber = b := by
  cases ftxRecord with
  | none =>
    obtain rfl := Except.ok.inj h
    exact .inl hb
  | some r =>
    rcases (ftxProcessedBySequencer_ok h).2 with hsafe | ⟨hsafe, -⟩
    · exact .inr ⟨r, rfl, Option.some.inj (hsafe.symm.trans hb)⟩
    · cases hsafe.symm.trans hb

theorem lock_safeBlockNumber
    (h : (m.lockSafeBlockNumberBeforeSendingToSequencer head).safeBlockNumber = some b) :
    m.safeBlockNumber = some b ∨ b = head := by
  simp only [lockSafeBlockNumberBeforeSendingToSequencer] at h
  split at h
  · exact .inl h
  · exact .inr (Option.some.inj h).symm

theorem caughtUp_safeBlockNumber
    (h : m.caughtUpWithChainHeadAfterStartUp.safeBlockNumber = some b) :
    m.safeBlockNumber = some b := by
  simp only [caughtUpWithChainHeadAfterStartUp] at h
  split at h
  · exact h
  · split at h
    · cases h
    · exact h

theorem caughtUp_ftxInSequencerForProcessing :
    m.caughtUpWithChainHeadAfterStartUp.ftxInSequencerForProcessing =
      m.ftxInSequencerForProcessing := by
  simp only [caughtUpWithChainHeadAfterStartUp]
  repeat' split
  all_goals rfl

theorem caughtUp_locked (h : m.locked = true) :
    m.caughtUpWithChainHeadAfterStartUp.safeBlockNumber = m.safeBlockNumber := by
  obtain ⟨b, hb, hpos⟩ := locked_iff.mp h
  have hne : m.safeBlockNumber ≠ some 0 := by
    rw [hb]
    exact fun h0 => Nat.ne_of_gt hpos (Option.some.inj h0)
  simp only [caughtUpWithChainHeadAfterStartUp, beq_eq_false_iff_ne.mpr hne, Bool.and_false]
  split
  · rfl
  · rfl

theorem release_safeBlockNumber (h : m.unprocessedFtxQueueIsEmpty.safeBlockNumber = some b) :
    m.safeBlockNumber = some b := by
  simp only [unprocessedFtxQueueIsEmpty] at h
  split at h
  · cases h
  · exact h

end SafeBlockNumberManager

namespace Held

variable {statuses : List ForcedTransactionInclusionStatus}

theorem locked (h : Held m statuses n) : m.locked = true := by
  obtain ⟨-, b, hb, hpos, -⟩ := h
  exact SafeBlockNumberManager.locked_iff.mpr ⟨b, hb, hpos⟩

theorem lock (h : Held m statuses n) :
    Held (m.lockSafeBlockNumberBeforeSendingToSequencer head) statuses n := by
  rwa [SafeBlockNumberManager.lockSafeBlockNumberBeforeSendingToSequencer, if_pos h.locked]

theorem caughtUp (h : Held m statuses n) : Held m.caughtUpWithChainHeadAfterStartUp statuses n := by
  rw [Held, SafeBlockNumberManager.caughtUp_ftxInSequencerForProcessing,
    SafeBlockNumberManager.caughtUp_locked h.locked]
  exact h

theorem processed_ok (h : Held m statuses status.ftxNumber) (hstatus : status ∈ statuses)
    (n : Nat) : ∃ m', m.ftxProcessedBySequencer n status.blockNumber = .ok m' := by
  obtain ⟨-, b, hb, -, hlt⟩ := h
  have hle : ¬ status.blockNumber < b := Nat.not_lt.mpr (Nat.le_of_lt (hlt status hstatus rfl))
  simp [SafeBlockNumberManager.ftxProcessedBySequencer, hb, hle]

theorem processed (h : Held m statuses n') (hm : m.ftxProcessedBySequencer n b = .ok m')
    (hn : n < n') (hb : 0 < b)
    (hlt : ∀ status ∈ statuses, status.ftxNumber = n' → b < status.blockNumber) :
    Held m' statuses n' := by
  obtain ⟨hlist, hsafe⟩ := SafeBlockNumberManager.ftxProcessedBySequencer_ok hm
  have hmem : n' ∈ m'.ftxInSequencerForProcessing := by
    rw [hlist]
    exact List.mem_filter.mpr ⟨h.1, decide_eq_true hn⟩
  rcases hsafe with hsafe | ⟨-, hempty⟩
  · exact ⟨hmem, b, hsafe, hb, hlt⟩
  · simp [hempty] at hmem

theorem sent (h : Held m statuses n) :
    Held { m with ftxInSequencerForProcessing := m.ftxInSequencerForProcessing ++ ftx }
      statuses n :=
  ⟨List.mem_append_left _ h.1, h.2⟩

theorem later (h : Held m statuses n) (hhead : ∀ b, m.safeBlockNumber = some b → b ≤ head)
    (hlater : ∀ status ∈ statuses', status ∈ statuses ∨ head < status.blockNumber) :
    Held m statuses' n := by
  obtain ⟨hmem, b, hb, hpos, hlt⟩ := h
  refine ⟨hmem, b, hb, hpos, fun status hstatus hn => ?_⟩
  rcases hlater status hstatus with hold | hnew
  · exact hlt status hold hn
  · exact Nat.lt_of_le_of_lt (hhead b hb) hnew

end Held

-- The invariant

def Tick.remaining : Tick → Option (List ForcedTransactionWithTimestamp)
  | .processing remaining | .filtering remaining => some remaining
  | .checking ftx remaining | .saving ftx _ remaining | .saved ftx _ remaining
  | .adding ftx _ remaining | .removing ftx remaining => some (ftx :: remaining)
  | _ => none

def Tick.recording : Tick → Option Nat
  | .saved ftx _ _ | .adding ftx _ _ => some ftx.forcedTransactionNumber
  | _ => none

def Tick.told : Tick → Option Nat
  | .adding ftx _ _ => some ftx.forcedTransactionNumber
  | _ => none

namespace App

def known (a : App) : List ForcedTransactionWithTimestamp := a.tick.remaining.getD a.ftxQueue

def Settled (a : App) (n : Nat) : Prop := n ∈ a.processed ∨ n ∈ a.recordedBefore

end App

/-- What was sent is settled, or the number is below its block. -/
def Covered (config : Config) (s : State) (a : App) (n : Nat) : Prop :=
  a.Settled n ∨ a.tick.told = some n ∨ ∃ ftx ∈ a.known, ftx.forcedTransactionNumber = n ∧
    config.isReady s.now ftx = true ∧ Held a.manager s.statuses n

def Sendable (config : Config) (s : State) (a : App) (l : List ForcedTransactionWithTimestamp) :
    Prop :=
  ∀ ftx ∈ l, ftx ∈ a.ftxQueue ∧ config.isReady s.now ftx = true

/-- The status of a forced transaction, from a block of the chain. -/
def StatusOf (s : State) (ftx : ForcedTransactionWithTimestamp)
    (status : ForcedTransactionInclusionStatus) : Prop :=
  status ∈ s.statuses ∧ status.ftxNumber = ftx.forcedTransactionNumber ∧
    status.blockNumber ≤ s.head

/-- What holds at each place of a tick. -/
def TickOk (config : Config) (s : State) (a : App) : Tick → Prop
  | .idle => True
  | .processing remaining | .filtering remaining => remaining <+: a.ftxQueue
  | .checking ftx remaining =>
    ftx :: remaining <+: a.ftxQueue ∧ ftx.forcedTransactionNumber ∉ s.recorded
  | .saving ftx status remaining =>
    ftx :: remaining <+: a.ftxQueue ∧ StatusOf s ftx status ∧
      ftx.forcedTransactionNumber ∉ s.recorded
  | .saved ftx status remaining =>
    ftx :: remaining <+: a.ftxQueue ∧ StatusOf s ftx status ∧
      ftx.forcedTransactionNumber ∈ s.recorded ∧ ¬ a.Settled ftx.forcedTransactionNumber
  | .adding ftx status remaining =>
    ftx :: remaining <+: a.ftxQueue ∧ StatusOf s ftx status ∧
      ftx.forcedTransactionNumber ∈ s.recorded
  | .removing ftx remaining =>
    ftx :: remaining <+: a.ftxQueue ∧ a.Settled ftx.forcedTransactionNumber
  | .releasing => ∀ n ∈ s.sent, a.Settled n
  | .readingHead l | .flagging l => Sendable config s a l
  | .locking head l => Sendable config s a l ∧ head ≤ s.head
  | .sending l => Sendable config s a l ∧ a.manager.locked = true ∧
    ∀ ftx ∈ l, ftx.forcedTransactionNumber ∈ a.manager.ftxInSequencerForProcessing

structure AppOk (config : Config) (s : State) (a : App) : Prop where
  stopped : a.phase ≠ .running → a.ftxQueue = [] ∧ a.tick = .idle ∧ a.l1End = none
  positive : a.phase = .running → 0 < a.nextExpectedFtxNumber
  queue : Consecutive (·.forcedTransactionNumber) a.nextExpectedFtxNumber a.ftxQueue
  next : a.nextExpectedFtx = a.nextExpectedFtxNumber + a.ftxQueue.length
  head : ∀ b, a.manager.safeBlockNumber = some b → b ≤ s.head
  settled : ∀ n, a.Settled n → n ∈ s.recorded
  recorded : ∀ n ∈ s.recorded, a.Settled n ∨ a.tick.recording = some n
  covered : ∀ n ∈ s.sent, Covered config s a n
  tick : TickOk config s a a.tick

/-- The sequencer processes what was sent to it, in order and each in a block of its own. -/
structure SequencerOk (s : State) : Prop where
  positive : ∀ n ∈ s.sent, 0 < n
  received : ∀ n ∈ s.received, n ∈ s.sent
  sent : ∀ status ∈ s.statuses, status.ftxNumber ∈ s.sent
  block : ∀ status ∈ s.statuses, 0 < status.blockNumber
  unique : ∀ i ∈ s.statuses, ∀ j ∈ s.statuses, i.ftxNumber = j.ftxNumber → i = j
  earlier : ∀ j ∈ s.statuses, ∀ n, 0 < n → n < j.ftxNumber →
    ∃ i ∈ s.statuses, i.ftxNumber = n ∧ i.blockNumber < j.blockNumber
  records : ∀ r ∈ s.ftxDao, r.simulatedExecutionBlockNumber ≤ s.head

structure Inv (config : Config) (s : State) : Prop where
  sequencer : SequencerOk s
  app : AppOk config s s.app

/-- Forced transactions are processed in their order, each in a later block than the one before;
a restart leaves none behind that was sent and is not recorded; and the processed queue has room
for what is put into it. -/
def Orderly (s : State) : Action → Prop
  | .process n _ => ∀ i < n, 0 < i →
    ∃ status ∈ s.statuses, status.ftxNumber = i ∧ status.blockNumber ≤ s.head
  | .restart => ∀ n ∈ s.sent, n ∈ s.recorded
  | .tick => s.app.tick.told ≠ none → s.app.ftxProcessedQueue.length < State.queueCapacity
  | _ => True

instance : (s : State) → (action : Action) → Decidable (Orderly s action)
  | s, .process n _ => inferInstanceAs (Decidable (∀ i < n, 0 < i →
      ∃ status ∈ s.statuses, status.ftxNumber = i ∧ status.blockNumber ≤ s.head))
  | s, .restart => inferInstanceAs (Decidable (∀ n ∈ s.sent, n ∈ s.recorded))
  | s, .tick => inferInstanceAs (Decidable
      (s.app.tick.told ≠ none → s.app.ftxProcessedQueue.length < State.queueCapacity))
  | _, .addForcedTransaction _ | _, .passTime _ | _, .produceBlock | _, .receive _
  | _, .checkVersion _ | _, .resume _ | _, .searchL1 | _, .onNewForcedTransaction | _, .caughtUp
  | _, .fail | _, .consume => inferInstanceAs (Decidable True)

-- The queue

theorem consecutiveFrom_eq (h : Consecutive (·.forcedTransactionNumber) n l) :
    consecutiveFrom n l = l := by
  induction l generalizing n with
  | nil => rfl
  | cons ftx l ih =>
    obtain ⟨hn, hl⟩ := Consecutive.cons.mp h
    rw [consecutiveFrom, if_pos hn, ih hl]

theorem consecutiveFtxs_eq (h : Consecutive (·.forcedTransactionNumber) n l) :
    consecutiveFtxs n l = l := by
  rw [consecutiveFtxs, h.filter_le_eq, h.insertionSort_eq, consecutiveFrom_eq h]

theorem isReady_later (h : config.isReady now ftx = true) (hnow : now ≤ now') :
    config.isReady now' ftx = true := by
  simp only [Config.isReady, decide_eq_true_eq] at h ⊢
  omega

-- L1, time and the sequencer

theorem SequencerOk.ordered (h : SequencerOk s) (hi : i ∈ s.statuses) (hj : j ∈ s.statuses)
    (hij : i.ftxNumber < j.ftxNumber) : i.blockNumber < j.blockNumber := by
  obtain ⟨i', hi', hn, hlt⟩ := h.earlier j hj _ (h.positive _ (h.sent i hi)) hij
  rwa [← h.unique i' hi' i hi hn]

/-- Blocks and statuses are only added, the statuses for blocks after the head. -/
structure Later (s s' : State) : Prop where
  head : s.head ≤ s'.head
  now : s.now ≤ s'.now
  mono : ∀ status ∈ s.statuses, status ∈ s'.statuses
  statuses : ∀ status ∈ s'.statuses, status ∈ s.statuses ∨ s.head < status.blockNumber

theorem Later.refl (s : State) : Later s s :=
  ⟨Nat.le_refl _, Int.le_refl _, fun _ hstatus => hstatus, fun _ => .inl⟩

theorem process_later (hs : s.process n inclusionResult = some s') : Later s s' := by
  obtain ⟨-, ⟨⟩⟩ := Option.ite_none_right_eq_some.mp hs
  refine { Later.refl s with mono := fun _ => List.mem_append_left _, statuses := ?_ }
  intro status hstatus
  rcases List.mem_append.mp hstatus with hold | hnew
  · exact .inl hold
  · rw [List.mem_singleton.mp hnew]
    exact .inr (Nat.lt_succ_self _)

theorem Sendable.later (h : Sendable config s a l) (hl : Later s s') : Sendable config s' a l :=
  fun ftx hftx => ⟨(h ftx hftx).1, isReady_later (h ftx hftx).2 hl.now⟩

theorem StatusOf.later (h : StatusOf s ftx status) (hl : Later s s') : StatusOf s' ftx status :=
  ⟨hl.mono _ h.1, h.2.1, Nat.le_trans h.2.2 hl.head⟩

theorem TickOk.later (h : TickOk config s a t) (hl : Later s s') (hsent : s'.sent = s.sent)
    (hdao : s'.ftxDao = s.ftxDao) : TickOk config s' a t := by
  have hrecorded : s'.recorded = s.recorded := congrArg (List.map _) hdao
  cases t with
  | idle | processing | filtering | removing => exact h
  | checking => exact ⟨h.1, hrecorded ▸ h.2⟩
  | saving | adding => exact ⟨h.1, h.2.1.later hl, hrecorded ▸ h.2.2⟩
  | saved => exact ⟨h.1, h.2.1.later hl, hrecorded ▸ h.2.2.1, h.2.2.2⟩
  | releasing => exact fun n hn => h n (hsent ▸ hn)
  | readingHead | flagging => exact Sendable.later h hl
  | locking => exact ⟨h.1.later hl, Nat.le_trans h.2 hl.head⟩
  | sending => exact ⟨h.1.later hl, h.2⟩

theorem AppOk.later (h : AppOk config s a) (hl : Later s s') (hsent : s'.sent = s.sent)
    (hdao : s'.ftxDao = s.ftxDao) : AppOk config s' a := by
  have hrecorded : s'.recorded = s.recorded := congrArg (List.map _) hdao
  refine ⟨h.stopped, h.positive, h.queue, h.next, ?_, ?_, ?_, ?_, h.tick.later hl hsent hdao⟩
  · exact fun b hb => Nat.le_trans (h.head b hb) hl.head
  · exact fun n hn => hrecorded ▸ h.settled n hn
  · exact fun n hn => h.recorded n (hrecorded ▸ hn)
  · intro n hn
    rcases h.covered n (hsent ▸ hn) with hsettled | htold | ⟨ftx, hftx, hnumber, hready, hheld⟩
    · exact .inl hsettled
    · exact .inr (.inl htold)
    · exact .inr (.inr ⟨ftx, hftx, hnumber, isReady_later hready hl.now,
        hheld.later h.head hl.statuses⟩)

theorem SequencerOk.process (h : SequencerOk s)
    (hok : Orderly s (.process n inclusionResult)) (hs : s.process n inclusionResult = some s') :
    SequencerOk s' := by
  obtain ⟨hn, ⟨⟩⟩ := Option.ite_none_right_eq_some.mp hs
  have hnew : ∀ status ∈ s.statuses, status.ftxNumber ≠ n := fun status hstatus heq =>
    hn.2 (List.mem_map.mpr ⟨status, hstatus, heq⟩)
  -- nothing after it was processed, since that would need it to be processed
  refine ⟨h.positive, h.received, ?_, ?_, ?_, ?_, h.records⟩
  all_goals
    simp only [List.mem_append, List.mem_singleton]
  · rintro status (hstatus | rfl)
    · exact h.sent status hstatus
    · exact h.received n hn.1
  · rintro status (hstatus | rfl)
    · exact h.block status hstatus
    · exact Nat.succ_pos _
  · rintro i (hi | rfl) j (hj | rfl) hij
    · exact h.unique i hi j hj hij
    · exact absurd hij (hnew i hi)
    · exact absurd hij.symm (hnew j hj)
    · rfl
  · rintro j (hj | rfl) i hpos hij
    · obtain ⟨k, hk, hki, hlt⟩ := h.earlier j hj i hpos hij
      exact ⟨k, .inl hk, hki, hlt⟩
    · obtain ⟨k, hk, hki, hle⟩ := hok i hij hpos
      exact ⟨k, .inl hk, hki, Nat.lt_succ_of_le hle⟩

theorem AppOk.settled_of_idle (h : AppOk config s a) (hphase : a.phase ≠ .running)
    (hn : n ∈ s.sent) : a.Settled n := by
  obtain ⟨hqueue, htick, -⟩ := h.stopped hphase
  rcases h.covered n hn with hsettled | htold | ⟨ftx, hftx, -⟩
  · exact hsettled
  · simp [htick, Tick.told] at htold
  · simp [App.known, htick, Tick.remaining, hqueue] at hftx

theorem mem_findHighest (h : r ∈ (getLastProcessedForcedTransaction finalized highest).2) :
    r ∈ highest := by
  simp only [getLastProcessedForcedTransaction] at h
  split at h
  · cases h
  · split at h
    · exact h
    · cases h

theorem AppOk.start (h : AppOk config s a) (hphase : a.phase ≠ .running)
    (hpositive : phase = .running → 0 < n) (hnext : n' = n)
    (hhead : ∀ b, m.safeBlockNumber = some b → b ≤ s.head) :
    AppOk config s { a with
      phase, manager := m, nextExpectedFtxNumber := n, nextExpectedFtx := n' } := by
  obtain ⟨hqueue, htick, hend⟩ := h.stopped hphase
  refine ⟨fun _ => ⟨hqueue, htick, hend⟩, hpositive, ?_, ?_, hhead, h.settled, h.recorded, ?_, ?_⟩
  · simp [hqueue]
  · simp [hqueue, hnext]
  · exact fun _ hn => .inl (h.settled_of_idle hphase hn)
  · simp [htick, TickOk]

theorem TickOk.enqueue (h : TickOk config s a t) (l : List ForcedTransactionWithTimestamp)
    (n : Nat) : TickOk config s { a with ftxQueue := a.ftxQueue ++ l, nextExpectedFtx := n } t := by
  have hqueue : a.ftxQueue <+: a.ftxQueue ++ l := List.prefix_append ..
  have hsendable : ∀ l', Sendable config s a l' →
      Sendable config s { a with ftxQueue := a.ftxQueue ++ l, nextExpectedFtx := n } l' :=
    fun l' hl' ftx hftx => ⟨List.mem_append_left _ (hl' ftx hftx).1, (hl' ftx hftx).2⟩
  cases t with
  | idle | releasing => exact h
  | processing | filtering => exact h.trans hqueue
  | checking | saving | saved | adding | removing => exact ⟨h.1.trans hqueue, h.2⟩
  | readingHead | flagging => exact hsendable _ h
  | locking | sending => exact ⟨hsendable _ h.1, h.2⟩

theorem TickOk.withManager (h : TickOk config s a t)
    (hlocked : a.manager.locked = true → m.locked = true)
    (hsent : ∀ n ∈ a.manager.ftxInSequencerForProcessing, n ∈ m.ftxInSequencerForProcessing) :
    TickOk config s { a with manager := m } t := by
  cases t with
  | sending => exact ⟨h.1, hlocked h.2.1, fun ftx hftx => hsent _ (h.2.2 ftx hftx)⟩
  | _ => exact h

section
variable (h : Inv config s)
include h

theorem Inv.later (hl : Later s s') (hsent : s'.sent = s.sent) (hdao : s'.ftxDao = s.ftxDao)
    (happ : s'.app = s.app) (hsequencer : SequencerOk s') : Inv config s' :=
  ⟨hsequencer, happ ▸ h.app.later hl hsent hdao⟩

theorem Inv.process (hok : Orderly s (.process n inclusionResult))
    (hs : s.process n inclusionResult = some s') : Inv config s' := by
  have hlater := process_later hs
  have hsequencer := h.sequencer.process hok hs
  obtain ⟨-, ⟨⟩⟩ := Option.ite_none_right_eq_some.mp hs
  exact h.later hlater rfl rfl rfl hsequencer

-- Start

theorem Inv.restart (hok : Orderly s .restart) : Inv config s.restart where
  sequencer := { h.sequencer with }
  app := {
    stopped := fun _ => ⟨rfl, rfl, rfl⟩
    positive := fun hphase => by cases hphase
    queue := .nil
    next := rfl
    head := by
      rintro b ⟨⟩
      exact Nat.zero_le _
    settled := by
      rintro n (hn | hn)
      · cases hn
      · exact hn
    recorded := fun n hn => .inl (.inr hn)
    covered := fun n hn => .inl (.inr (hok n hn))
    tick := trivial }

theorem Inv.withApp (ha : AppOk config s a) : Inv config { s with app := a } :=
  ⟨{ h.sequencer with },
    ha.later ⟨Nat.le_refl _, Int.le_refl _, fun _ hstatus => hstatus, fun _ => .inl⟩ rfl rfl⟩

theorem Inv.checkVersion (hs : s.checkVersion supported = some s') : Inv config s' := by
  obtain ⟨hphase, hs⟩ := Option.ite_none_right_eq_some.mp hs
  have hne : s.app.phase ≠ .running := by simp [hphase]
  have hnext : s.app.nextExpectedFtx = s.app.nextExpectedFtxNumber := by
    rw [h.app.next, (h.app.stopped hne).1]
    rfl
  split at hs
  · cases hs
    exact h.withApp (h.app.start hne nofun hnext h.app.head)
  · obtain ⟨-, ⟨⟩⟩ := Option.ite_none_right_eq_some.mp hs
    exact h.withApp (h.app.start hne nofun hnext nofun)

theorem Inv.resume (hs : s.resume finalized = some s') : Inv config s' := by
  obtain ⟨hphase, hs⟩ := Option.dite_none_right_eq_some.mp hs
  split at hs
  · cases hs
  · rename_i m hm
    cases hs
    refine h.withApp (h.app.start (by simp [hphase.1]) (fun _ => Nat.succ_pos _) rfl ?_)
    intro b hb
    rcases SafeBlockNumberManager.resumeAt_ok hm hb with hold | ⟨r, hr, rfl⟩
    · exact h.app.head b hold
    · exact h.sequencer.records r (List.argmax_mem (mem_findHighest hr))

-- The fetcher

theorem Inv.searchL1 (hs : s.searchL1 = some s') : Inv config s' := by
  obtain ⟨hphase, ⟨⟩⟩ := Option.ite_none_right_eq_some.mp hs
  exact h.withApp { h.app with stopped := fun hne => absurd hphase hne }

theorem Inv.onNewForcedTransaction (hs : s.onNewForcedTransaction = some s') : Inv config s' := by
  obtain ⟨hend, hs⟩ := Option.ite_none_right_eq_some.mp hs
  split at hs
  · cases hs
  · cases hs
    have hphase : s.app.phase = .running := by
      by_contra hne
      simp [(h.app.stopped hne).2.2] at hend
    refine h.withApp { h.app with
      stopped := fun hne => absurd hphase hne
      queue := ?_
      next := ?_
      covered := ?_
      tick := h.app.tick.enqueue _ _ }
    · exact Consecutive.append.mpr ⟨h.app.queue, by simp [h.app.next]⟩
    · simp [h.app.next, Nat.add_assoc]
    · intro n hn
      rcases h.app.covered n hn with hsettled | htold | ⟨ftx, hftx, hheld⟩
      · exact .inl hsettled
      · exact .inr (.inl htold)
      · refine .inr (.inr ⟨ftx, ?_, hheld⟩)
        simp only [App.known] at hftx ⊢
        cases hremaining : s.app.tick.remaining with
        | none => simp_all
        | some l => simpa [hremaining] using hftx

theorem Inv.caughtUp (hs : s.caughtUp = some s') : Inv config s' := by
  obtain ⟨-, ⟨⟩⟩ := Option.ite_none_right_eq_some.mp hs
  refine h.withApp { h.app with
    head := fun b hb => h.app.head b (SafeBlockNumberManager.caughtUp_safeBlockNumber hb)
    covered := ?_
    tick := ?_ }
  · intro n hn
    rcases h.app.covered n hn with hsettled | htold | ⟨ftx, hftx, hnumber, hready, hheld⟩
    · exact .inl hsettled
    · exact .inr (.inl htold)
    · exact .inr (.inr ⟨ftx, hftx, hnumber, hready, hheld.caughtUp⟩)
  · refine h.app.tick.withManager (fun hlocked => ?_) fun n hn => ?_
    · rwa [SafeBlockNumberManager.locked, SafeBlockNumberManager.caughtUp_locked hlocked]
    · rwa [SafeBlockNumberManager.caughtUp_ftxInSequencerForProcessing]

end

end StatusNetwork.ForcedTransactions
