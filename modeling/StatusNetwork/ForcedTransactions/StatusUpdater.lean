import StatusNetwork.ForcedTransactions.SafeBlock

/-!
# What the status updater records

The status updater in any surroundings: whatever is in the queue, whatever the sequencer answers and
wherever a tick fails, it records the numbers one after the other. It puts what it records into the
processed queue, unless something fails between the two: the next tick takes what is recorded as
handled.
-/

namespace StatusNetwork.ForcedTransactions

open Interleaving (Reaches exists_reaches)
open Numbering (Consecutive)

variable {config : Config} {s s' s₀ : State} {before : List Nat} {first k : Nat}

inductive UpdaterAction
  | tick
  | fail
  | surroundings (others : State)

/-- Others change everything but the database and what the status updater keeps. -/
def updaterStep (config : Config) (s : State) : UpdaterAction → Option State
  | .tick => s.tick config
  | .fail => some (s.goto .idle)
  | .surroundings others => some { others with
    ftxDao := s.ftxDao
    app := { others.app with
      nextExpectedFtxNumber := s.app.nextExpectedFtxNumber
      tick := s.app.tick
      processed := s.app.processed } }

/-- After a save the manager does not refuse, the processed queue has room, and nothing fails. -/
def undisturbed (s : State) : UpdaterAction → Bool
  | .tick => match s.app.tick with
    | .saved ftx ftxStatus _ => (s.app.manager.ftxProcessedBySequencer
        ftx.forcedTransactionNumber ftxStatus.blockNumber).toBool
    | .adding .. => s.app.ftxProcessedQueue.length < State.queueCapacity
    | _ => true
  | .fail => s.app.tick.recording.isNone
  | .surroundings _ => true

/-- Of `k` numbers, those that were not recorded before. -/
def newNumbers (before : List Nat) (first k : Nat) : List Nat :=
  (List.range' first k).filter (· ∉ before)

theorem newNumbers_succ : newNumbers before first (k + 1) =
    newNumbers before first k ++ if first + k ∈ before then [] else [first + k] := by
  rw [newNumbers, List.range'_1_concat, newNumbers]
  split
  all_goals
    rename_i hmem
    simp [hmem]

theorem mem_append_newNumbers : n ∈ before ++ newNumbers before first k ↔
    n ∈ before ∨ first ≤ n ∧ n < first + k := by
  simp only [newNumbers, List.mem_append, List.mem_filter, List.mem_range'_1, decide_eq_true_eq]
  tauto

/-- Where a tick stands with the forced transactions from the next number on. -/
def Recording (recorded : List Nat) (next : Nat) : Tick → Prop
  | .processing l => Consecutive (·.forcedTransactionNumber) next l
  | .checking ftx l => Consecutive (·.forcedTransactionNumber) next (ftx :: l) ∧ next ∉ recorded
  | .saving ftx ftxStatus l => Consecutive (·.forcedTransactionNumber) next (ftx :: l) ∧
    ftxStatus.ftxNumber = next ∧ next ∉ recorded
  | .saved ftx ftxStatus l | .adding ftx ftxStatus l =>
    Consecutive (·.forcedTransactionNumber) next (ftx :: l) ∧ ftxStatus.ftxNumber = next ∧
      next ∈ recorded
  | .removing ftx l => Consecutive (·.forcedTransactionNumber) next (ftx :: l) ∧ next ∈ recorded
  | _ => True

structure Updated (p : Prop) (before : List Nat) (first k : Nat) (s : State) : Prop where
  start : first ≤ s.app.nextExpectedFtxNumber
  next : s.app.nextExpectedFtxNumber ≤ first + k
  recorded : s.recorded = before ++ newNumbers before first k
  processed : p → s.app.processed ++ s.app.tick.recording.toList = newNumbers before first k
  tick : Recording s.recorded s.app.nextExpectedFtxNumber s.app.tick

theorem consecutiveFrom_consecutive :
    Consecutive (·.forcedTransactionNumber) n (consecutiveFrom n l) := by
  induction l generalizing n with
  | nil => exact .nil
  | cons ftx l ih =>
    rw [consecutiveFrom]
    split
    · rename_i hn
      exact Consecutive.cons.mpr ⟨hn, ih⟩
    · exact .nil

section
variable (h : Updated p before first k s) (ht : s.app.tick = t)
include h ht

theorem Updated.moved (hdao : s'.ftxDao = s.ftxDao)
    (hnext : s'.app.nextExpectedFtxNumber = s.app.nextExpectedFtxNumber)
    (hprocessed : s'.app.processed = s.app.processed)
    (hrecording : p → s'.app.tick.recording = t.recording)
    (htick : Recording s.recorded s.app.nextExpectedFtxNumber s'.app.tick) :
    ∃ k, Updated p before first k s' := by
  have hrecorded : s'.recorded = s.recorded := congrArg (List.map _) hdao
  refine ⟨k, hnext ▸ h.start, hnext ▸ h.next, hrecorded.trans h.recorded, fun hp => ?_, ?_⟩
  · rw [hprocessed, hrecording hp, ← ht]
    exact h.processed hp
  · rwa [hrecorded, hnext]

theorem Updated.recording :
    (p → s.app.processed ++ t.recording.toList = newNumbers before first k) ∧
    Recording (before ++ newNumbers before first k) s.app.nextExpectedFtxNumber t := by
  subst ht
  exact ⟨h.processed, h.recorded ▸ h.tick⟩

end

section
variable (h : Updated p before first k s)
include h

theorem Updated.saving (ht : s.app.tick = .saving ftx ftxStatus l) :
    ∃ k, Updated p before first k { s with
      ftxDao := s.ftxDao ++
        [⟨ftx.forcedTransactionNumber, ftxStatus.inclusionResult, ftxStatus.blockNumber⟩]
      app := { s.app with tick := .saved ftx ftxStatus l } } := by
  obtain ⟨hprocessed, hl, hstatus, hnew⟩ := h.recording ht
  have hnumber := (Consecutive.cons.mp hl).1
  rw [mem_append_newNumbers, not_or] at hnew
  -- the number is the one after those that are recorded
  have hk : s.app.nextExpectedFtxNumber = first + k :=
    Nat.le_antisymm h.next (Nat.not_lt.mp fun hlt => hnew.2 ⟨h.start, hlt⟩)
  have hsucc : newNumbers before first (k + 1) =
      newNumbers before first k ++ [ftx.forcedTransactionNumber] := by
    rw [newNumbers_succ, if_neg (hk ▸ hnew.1), hnumber, hk]
  have hrecorded := h.recorded
  rw [State.recorded] at hrecorded
  refine ⟨k + 1, h.start, Nat.le_succ_of_le h.next, ?_, fun hp => ?_, hl, hstatus, ?_⟩
  · simp [State.recorded, hrecorded, hsucc]
  · simp [hsucc, ← hprocessed hp, Tick.recording]
  · simp [State.recorded, hnumber]

theorem Updated.removing (ht : s.app.tick = .removing ftx l) :
    ∃ k, Updated p before first k { s with app := { s.app with
      ftxQueue := s.app.ftxQueue.filter (·.forcedTransactionNumber ≠ ftx.forcedTransactionNumber)
      nextExpectedFtxNumber := ftx.forcedTransactionNumber + 1
      tick := .processing l } } := by
  obtain ⟨hprocessed, hl, hmem⟩ := h.recording ht
  obtain ⟨hnumber, hrest⟩ := Consecutive.cons.mp hl
  have hstart := h.start
  have hnext := h.next
  rw [← hnumber] at hrest hstart hnext hmem
  rcases Nat.lt_or_ge ftx.forcedTransactionNumber (first + k) with hlt | hge
  · exact ⟨k, Nat.le_succ_of_le hstart, hlt, h.recorded, hprocessed, hrest⟩
  -- it was recorded before
  · have hsucc : newNumbers before first (k + 1) = newNumbers before first k := by
      rw [Nat.le_antisymm hnext hge, mem_append_newNumbers] at hmem
      rw [newNumbers_succ, if_pos (hmem.resolve_right (by omega)), List.append_nil]
    refine ⟨k + 1, Nat.le_succ_of_le hstart, Nat.succ_le_succ hnext, ?_, ?_, hrest⟩
    all_goals rw [hsucc]
    · exact h.recorded
    · exact hprocessed

theorem Updated.tick_ok (hok : p → undisturbed s .tick) (hs : s.tick config = some s') :
    ∃ k, Updated p before first k s' := by
  have htick := h.tick
  simp only [State.tick] at hs
  split at hs
  all_goals
    rename_i ht
    rw [ht] at htick
  case h_1 =>
    obtain ⟨-, ⟨⟩⟩ := Option.ite_none_right_eq_some.mp hs
    exact h.moved ht rfl rfl rfl (fun _ => rfl) consecutiveFrom_consecutive
  case h_3 =>
    split at hs
    all_goals
      rename_i hmem
      rw [(Consecutive.cons.mp htick).1] at hmem
      cases hs
      exact h.moved ht rfl rfl rfl (fun _ => rfl) ⟨htick, hmem⟩
  case h_4 =>
    split at hs
    · cases hs
      exact h.moved ht rfl rfl rfl (fun _ => rfl) trivial
    · rename_i hfind
      cases hs
      have hstatus := (lineaFindForcedTransactionStatus_some hfind).2.1
      rw [(Consecutive.cons.mp htick.1).1] at hstatus
      exact h.moved ht rfl rfl rfl (fun _ => rfl) ⟨htick.1, hstatus, htick.2⟩
  case h_5 =>
    cases hs
    exact h.saving ht
  case h_6 =>
    split at hs
    · rename_i hm
      cases hs
      simp only [undisturbed, ht, hm] at hok
      exact h.moved ht rfl rfl rfl (fun hp => by cases hok hp) trivial
    · cases hs
      exact h.moved ht rfl rfl rfl (fun _ => rfl) htick
  case h_7 =>
    split at hs
    · cases hs
      obtain ⟨hl, hstatus, hmem⟩ := htick
      refine ⟨k, h.start, h.next, h.recorded, fun hp => ?_, hl, hmem⟩
      have hprocessed := (h.recording ht).1 hp
      rw [Tick.recording, (Consecutive.cons.mp hl).1, ← hstatus] at hprocessed
      exact (List.append_nil _).trans hprocessed
    · rename_i hfull
      cases hs
      simp only [undisturbed, ht, decide_eq_true_eq] at hok
      exact h.moved ht rfl rfl rfl (fun hp => absurd (hok hp) hfull) trivial
  case h_8 =>
    cases hs
    exact h.removing ht
  all_goals
    repeat' split at hs
    all_goals
      cases hs
      exact h.moved ht rfl rfl rfl (fun _ => rfl) trivial

theorem Updated.step (hok : p → undisturbed s action)
    (hs : updaterStep config s action = some s') : ∃ k, Updated p before first k s' := by
  cases action with
  | tick => exact h.tick_ok hok hs
  | fail =>
    cases hs
    exact h.moved rfl rfl rfl rfl (fun hp => (Option.isNone_iff_eq_none.mp (hok hp)).symm) trivial
  | surroundings =>
    cases hs
    exact h.moved rfl rfl rfl rfl (fun _ => rfl) h.tick

end

/-- From the first number on what was not recorded yet is recorded without a gap, and everything
before the next expected number is. On a run that is undisturbed after each save what is recorded
is put into the processed queue once. -/
theorem recorded_without_gap (hidle : s₀.app.tick = .idle) (hempty : s₀.app.processed = []) :
    (∀ s, Reaches (updaterStep config) (fun _ _ => True) s₀ s →
      ∃ k, s.app.nextExpectedFtxNumber ≤ s₀.app.nextExpectedFtxNumber + k ∧
        s.recorded = s₀.recorded ++ newNumbers s₀.recorded s₀.app.nextExpectedFtxNumber k) ∧
    ∀ s, Reaches (updaterStep config) (fun s action => undisturbed s action) s₀ s →
      ∃ k, s.recorded = s₀.recorded ++ newNumbers s₀.recorded s₀.app.nextExpectedFtxNumber k ∧
        s.app.processed ++ s.app.tick.recording.toList =
          newNumbers s₀.recorded s₀.app.nextExpectedFtxNumber k := by
  have hinit (p : Prop) : Updated p s₀.recorded s₀.app.nextExpectedFtxNumber 0 s₀ :=
    ⟨Nat.le_refl _, Nat.le_refl _, (List.append_nil _).symm, fun _ => by rw [hidle, hempty]; rfl,
      by rw [hidle]; trivial⟩
  constructor
  · intro s h
    obtain ⟨k, hk⟩ := h.invariant (I := fun s =>
        ∃ k, Updated False s₀.recorded s₀.app.nextExpectedFtxNumber k s)
      ⟨0, hinit _⟩ fun _ _ _ ⟨_, h⟩ _ hs => h.step False.elim hs
    exact ⟨k, hk.next, hk.recorded⟩
  · intro s h
    obtain ⟨k, hk⟩ := h.invariant (I := fun s =>
        ∃ k, Updated True s₀.recorded s₀.app.nextExpectedFtxNumber k s)
      ⟨0, hinit _⟩ fun _ _ _ ⟨_, h⟩ hok hs => h.step (fun _ => hok) hs
    exact ⟨k, hk.recorded, hk.processed trivial⟩

/-- Forced transaction 1 is in block 3 and the safe block number is `safe`. -/
def processedInBlock (safe : Nat) : State :=
  { State.init [0] 0 3 with
    statuses := [⟨1, 3, .included⟩]
    app := { App.fresh [] with
      phase := .running
      manager := ⟨some safe, false, []⟩
      ftxQueue := [⟨1, 0⟩]
      nextExpectedFtxNumber := 1 } }

/-- Forced transactions 2 and 3 are in block 3 too. -/
def threeProcessed : State :=
  { processedInBlock 3 with
    statuses := [⟨1, 3, .included⟩, ⟨2, 3, .included⟩, ⟨3, 3, .included⟩]
    app := { (processedInBlock 3).app with ftxQueue := [⟨1, 0⟩, ⟨2, 0⟩, ⟨3, 0⟩] } }

theorem recorded_without_gap_three : ∃ s, Reaches (updaterStep ⟨10, 0⟩)
    (fun s a => undisturbed s a) threeProcessed s ∧ s.app.nextExpectedFtxNumber = 4 ∧
      s.recorded = [1, 2, 3] ∧ s.app.processed = [1, 2, 3] := by
  obtain ⟨s, hs, h⟩ : ∃ s, Reaches (updaterStep ⟨10, 0⟩) (fun s a => undisturbed s a)
      threeProcessed s ∧ (s.app.tick.recording, s.app.nextExpectedFtxNumber, s.recorded) =
        (none, 4, [1, 2, 3]) :=
    exists_reaches (List.replicate 8 .tick ++ .fail :: List.replicate 13 .tick)
      _ (by decide +kernel)
  simp only [Prod.mk.injEq] at h
  obtain ⟨k, hrecorded, hprocessed⟩ := (recorded_without_gap rfl rfl).2 s hs
  rw [h.1, Option.toList_none, List.append_nil] at hprocessed
  exact ⟨s, hs, h.2.1, h.2.2, hprocessed.trans (hrecorded.symm.trans h.2.2)⟩

theorem recorded_not_processed : ∃ s,
    Reaches (updaterStep ⟨10, 0⟩) (fun _ _ => True) (processedInBlock 5) s ∧
      (s.app.nextExpectedFtxNumber, s.report 3) = (2, ⟨3, true, [(1, 3)], [1], []⟩) :=
  exists_reaches (List.replicate 8 .tick) _ (by decide +kernel)

end StatusNetwork.ForcedTransactions
