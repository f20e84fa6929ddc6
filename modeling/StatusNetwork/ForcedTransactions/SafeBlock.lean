import StatusNetwork.Base.Interleaving
import StatusNetwork.ForcedTransactions.Holding

/-!
# The safe block number

The sender keeps what was sent held as well, so that a block which is safe to conflate has no forced
transaction that is not settled.

The manager raises the number to the block of a forced transaction as soon as this one is recorded,
before it is put into the processed queue and whether or not others are in the same block. A start
knows nothing about what the coordinator before it sent.
-/

namespace StatusNetwork.ForcedTransactions

open Numbering (Consecutive)
open Interleaving (Reaches exists_reaches)
open Tick (recording told)

variable {config : Config} {s s' : State}

-- Later states

theorem Later.trans (h : Later s s₁) (h' : Later s₁ s') : Later s s' := by
  refine ⟨h.head.trans h'.head, h.now.trans h'.now, fun _ hstatus => h'.mono _ (h.mono _ hstatus),
    fun status hstatus => ?_⟩
  rcases h'.statuses status hstatus with hold | hnew
  · exact h.statuses status hold
  · exact .inr (Nat.lt_of_le_of_lt h.head hnew)

theorem tick_later (hs : s.tick config = some s') : Later s s' := by
  simp only [State.tick] at hs
  repeat' split at hs
  all_goals cases hs
  all_goals exact { Later.refl s with }

theorem step_later (hs : step config s action = some s') : Later s s' := by
  cases action with
  | passTime d =>
    cases hs
    exact { Later.refl s with now := Int.le_add_of_nonneg_right (Int.natCast_nonneg d) }
  | produceBlock =>
    cases hs
    exact { Later.refl s with head := Nat.le_succ _ }
  | process n inclusionResult => exact process_later hs
  | tick => exact tick_later hs
  | _ =>
    simp only [step, State.checkVersion, State.resume, State.searchL1,
      State.onNewForcedTransaction, State.caughtUp, State.fail] at hs
    repeat' split at hs
    all_goals cases hs
    all_goals exact { Later.refl s with }

theorem reaches_later (h : Reaches (step config) ok s s') : Later s s' :=
  h.invariant (.refl s) fun _ _ _ hlater _ hs => hlater.trans (step_later hs)

-- The sender

theorem Covered.known_subset (h : Covered config s a n) (htold : a.tick.told = none)
    (hknown : ∀ ftx ∈ a.known, ftx ∈ t.remaining.getD a.ftxQueue) :
    Covered config s { a with tick := t } n := by
  rcases h with hsettled | htold' | ⟨ftx, hftx, hheld⟩
  · exact .inl hsettled
  · cases htold.symm.trans htold'
  · exact .inr (.inr ⟨ftx, hknown ftx hftx, hheld⟩)

theorem AppOk.update (h : AppOk config s a) (hphase : a.phase = .running)
    (hhead : ∀ b, m.safeBlockNumber = some b → b ≤ s.head)
    (hrecording : a.tick.recording = none ∨ t.recording = a.tick.recording)
    (hcovered : ∀ n ∈ s.sent, Covered config s { a with manager := m, tick := t } n)
    (htick : TickOk config s { a with manager := m, tick := t } t) :
    AppOk config s { a with manager := m, tick := t } := by
  refine { h with
    stopped := fun hne => absurd hphase hne, head := hhead, recorded := ?_, covered := hcovered
    tick := htick }
  intro n hn
  rcases h.recorded n hn with hsettled | hrec
  · exact .inl hsettled
  · rcases hrecording with hnone | hsame
    · cases hnone.symm.trans hrec
    · exact .inr (hsame.trans hrec)

theorem AppOk.running (h : AppOk config s a) (htick : a.tick ≠ .idle) : a.phase = .running := by
  by_contra hne
  exact htick (h.stopped hne).2.1

/-- What was sent and is not settled is held, but for the moment when its block is told. -/
theorem AppOk.waiting (h : AppOk config s a) (ht : a.tick = t) (htold : t.told = none)
    (hn : n ∈ s.sent) : a.Settled n ∨ ∃ ftx ∈ t.remaining.getD a.ftxQueue,
      ftx.forcedTransactionNumber = n ∧ config.isReady s.now ftx = true ∧
        Held a.manager s.statuses n := by
  subst ht
  rcases h.covered n hn with hsettled | htold' | hheld
  · exact .inl hsettled
  · cases htold.symm.trans htold'
  · exact .inr hheld

theorem AppOk.settled_of_recorded (h : AppOk config s a) (ht : a.tick = t)
    (hrecording : t.recording = none) (hn : n ∈ s.recorded) : a.Settled n := by
  subst ht
  exact (h.recorded n hn).resolve_right (by simp [hrecording])

theorem lineaFindForcedTransactionStatus_some
    (h : s.lineaFindForcedTransactionStatus ftx.forcedTransactionNumber = some status) :
    StatusOf s ftx status := by
  have hfound := List.find?_some h
  simp only [decide_eq_true_eq] at hfound
  exact ⟨List.mem_of_find?_eq_some h, hfound⟩

theorem AppOk.lt_of_mem_remaining (h : AppOk config s a) (hqueue : ftx :: remaining <+: a.ftxQueue)
    (hmem : ftx' ∈ remaining) : ftx.forcedTransactionNumber < ftx'.forcedTransactionNumber := by
  obtain ⟨l, hl⟩ := hqueue
  have hconsecutive := h.queue
  rw [← hl] at hconsecutive
  obtain ⟨hn, hrest⟩ := Consecutive.cons.mp hconsecutive
  have := hrest.le_number (List.mem_append_left l hmem)
  omega

section
variable (h : Inv config s)
include h

theorem Inv.tickOk (ht : s.app.tick = t) : TickOk config s s.app t := ht ▸ h.app.tick

theorem Inv.goto (hphase : s.app.phase = .running) (hrecording : s.app.tick.recording = none)
    (hknown : ∀ ftx ∈ s.app.known, ftx ∈ t.remaining.getD s.app.ftxQueue)
    (htick : TickOk config s s.app t) : Inv config (s.goto t) := by
  have htold : s.app.tick.told = none := by
    cases ht : s.app.tick with
    | adding => simp [ht, recording] at hrecording
    | _ => rfl
  exact h.withApp (h.app.update hphase h.app.head (.inl hrecording)
    (fun n hn => (h.app.covered n hn).known_subset htold hknown) htick)

theorem Inv.saving (ht : s.app.tick = .saving ftx status remaining) : Inv config { s with
      ftxDao := s.ftxDao ++
        [⟨ftx.forcedTransactionNumber, status.inclusionResult, status.blockNumber⟩]
      app := { s.app with tick := .saved ftx status remaining } } := by
  obtain ⟨hqueue, hstatus, hnew⟩ := h.tickOk ht
  refine ⟨{ h.sequencer with records := ?_ }, ?_⟩
  · intro r hr
    rcases List.mem_append.mp hr with hold | hnew
    · exact h.sequencer.records r hold
    · rw [List.mem_singleton.mp hnew]
      exact hstatus.2.2
  · refine ⟨fun hne => absurd (h.app.running (by simp [ht])) hne, h.app.positive, h.app.queue,
      h.app.next, h.app.head, ?_, ?_, ?_, ?_⟩
    · intro n hn
      simp only [State.recorded, List.map_append, List.mem_append]
      exact .inl (h.app.settled n hn)
    · intro n hn
      simp only [State.recorded, List.map_append, List.mem_append, List.map_cons, List.map_nil,
        List.mem_singleton] at hn
      rcases hn with hold | rfl
      · exact .inl (h.app.settled_of_recorded ht rfl hold)
      · exact .inr rfl
    · intro n hn
      refine (h.app.covered n hn).known_subset (by simp [ht, told]) fun ftx' hftx' => ?_
      simpa [App.known, ht, Tick.remaining] using hftx'
    · refine ⟨hqueue, hstatus, ?_, fun hsettled => hnew (h.app.settled _ hsettled)⟩
      simp [State.recorded]

theorem Inv.saved (ht : s.app.tick = .saved ftx status remaining)
    (hm : s.app.manager.ftxProcessedBySequencer ftx.forcedTransactionNumber status.blockNumber =
      .ok m) : Inv config ((s.withManager m).goto (.adding ftx status remaining)) := by
  obtain ⟨hqueue, hstatus, hrecorded, -⟩ := h.tickOk ht
  refine h.withApp (h.app.update (h.app.running (by simp [ht])) ?_ (.inr (by simp [ht]; rfl)) ?_
    ⟨hqueue, hstatus, hrecorded⟩)
  · intro b hb
    rcases (SafeBlockNumberManager.ftxProcessedBySequencer_ok hm).2 with hsafe | ⟨hsafe, -⟩
    · rw [← Option.some.inj (hsafe.symm.trans hb)]
      exact hstatus.2.2
    · cases hsafe.symm.trans hb
  · intro n hn
    rcases h.app.waiting ht rfl hn with hsettled | ⟨ftx', hftx', rfl, hready, hheld⟩
    · exact .inl hsettled
    · rcases List.mem_cons.mp hftx' with rfl | hmem
      · exact .inr (.inl rfl)
      · have hlt := h.app.lt_of_mem_remaining hqueue hmem
        refine .inr (.inr ⟨ftx', List.mem_cons_of_mem _ hmem, rfl, hready,
          hheld.processed hm hlt (h.sequencer.block status hstatus.1) fun later hlater hn => ?_⟩)
        exact h.sequencer.ordered hstatus.1 hlater (by rw [hstatus.2.1, hn]; exact hlt)

/-- The manager does not refuse what was recorded. -/
theorem Inv.saved_ok (ht : s.app.tick = .saved ftx status remaining) :
    ∃ m, s.app.manager.ftxProcessedBySequencer ftx.forcedTransactionNumber status.blockNumber =
      .ok m := by
  obtain ⟨-, hstatus, -, hnew⟩ := h.tickOk ht
  rcases h.app.waiting ht rfl (h.sequencer.sent status hstatus.1) with
    hsettled | ⟨ftx', -, -, -, hheld⟩
  · exact absurd (hstatus.2.1 ▸ hsettled) hnew
  · exact hheld.processed_ok hstatus.1 _

theorem Inv.adding (ht : s.app.tick = .adding ftx status remaining) :
    Inv config { s with app := { s.app with
      ftxProcessedQueue := s.app.ftxProcessedQueue ++ [status]
      processed := s.app.processed ++ [status.ftxNumber]
      tick := .removing ftx remaining } } := by
  obtain ⟨hqueue, hstatus, hrecorded⟩ := h.tickOk ht
  have hnumber := hstatus.2.1
  refine h.withApp ⟨fun hne => absurd (h.app.running (by simp [ht])) hne, h.app.positive,
    h.app.queue, h.app.next, h.app.head, ?_, ?_, ?_, hqueue, .inl (by simp [hnumber])⟩
  · rintro n (hn | hn)
    · rcases List.mem_append.mp hn with hold | hnew
      · exact h.app.settled n (.inl hold)
      · rwa [List.mem_singleton.mp hnew, hnumber]
    · exact h.app.settled n (.inr hn)
  · intro n hn
    rcases h.app.recorded n hn with (hsettled | hsettled) | hrec
    · exact .inl (.inl (List.mem_append_left _ hsettled))
    · exact .inl (.inr hsettled)
    · simp only [ht, recording, Option.some.injEq] at hrec
      exact .inl (.inl (by simp [hnumber, hrec]))
  · intro n hn
    rcases h.app.covered n hn with (hsettled | hsettled) | htold | hheld
    · exact .inl (.inl (List.mem_append_left _ hsettled))
    · exact .inl (.inr hsettled)
    · simp only [ht, told, Option.some.injEq] at htold
      exact .inl (.inl (by simp [hnumber, htold]))
    · refine .inr (.inr ?_)
      simpa [App.known, ht, Tick.remaining] using hheld

theorem Inv.removing (ht : s.app.tick = .removing ftx remaining) :
    Inv config { s with app := { s.app with
      ftxQueue := s.app.ftxQueue.filter (·.forcedTransactionNumber ≠ ftx.forcedTransactionNumber)
      nextExpectedFtxNumber := ftx.forcedTransactionNumber + 1
      tick := .processing remaining } } := by
  obtain ⟨⟨l, hl⟩, hsettled⟩ := h.tickOk ht
  rw [List.cons_append] at hl
  have hqueue := h.app.queue
  rw [← hl] at hqueue
  obtain ⟨hnumber, hrest⟩ := Consecutive.cons.mp hqueue
  have hfilter : s.app.ftxQueue.filter
      (·.forcedTransactionNumber ≠ ftx.forcedTransactionNumber) = remaining ++ l := by
    rw [← hl]
    exact hqueue.filter_ne_eq
  have hnext := h.app.next
  rw [← hl, List.length_cons] at hnext
  rw [hfilter]
  refine h.withApp ⟨fun hne => absurd (h.app.running (by simp [ht])) hne,
    fun _ => Nat.succ_pos _, by rwa [hnumber], ?_, h.app.head, h.app.settled, ?_, ?_,
    List.prefix_append ..⟩
  · simp only [hnumber]
    omega
  · exact fun n hn => .inl (h.app.settled_of_recorded ht rfl hn)
  · intro n hn
    rcases h.app.waiting ht rfl hn with hsettled | ⟨ftx', hftx', hn', hheld⟩
    · exact .inl hsettled
    · rcases List.mem_cons.mp hftx' with rfl | hmem
      · exact .inl (hn' ▸ hsettled)
      · exact .inr (.inr ⟨ftx', hmem, hn', hheld⟩)

/-- When nothing is ready to be sent, nothing that was sent waits. -/
theorem Inv.settled_of_filter (ht : s.app.tick = .filtering ftxs)
    (hempty : ftxs.filter (config.isReady s.now) = []) : ∀ n ∈ s.sent, s.app.Settled n := by
  intro n hn
  rcases h.app.waiting ht rfl hn with hsettled | ⟨ftx, hftx, -, hready, -⟩
  · exact hsettled
  · exact absurd hready (List.filter_eq_nil_iff.mp hempty ftx hftx)

theorem Inv.locking (ht : s.app.tick = .locking head l) :
    Inv config ((s.withManager
      (s.app.manager.lockSafeBlockNumberBeforeSendingToSequencer head)).goto
        (.flagging (l.take config.maxFtxToSendToSequencer))) := by
  have htick := h.tickOk ht
  refine h.withApp (h.app.update (h.app.running (by simp [ht])) ?_ (.inl (by simp [ht]; rfl)) ?_
    fun ftx hftx => htick.1 ftx (List.mem_of_mem_take hftx))
  · intro b hb
    rcases SafeBlockNumberManager.lock_safeBlockNumber hb with hold | rfl
    · exact h.app.head b hold
    · exact htick.2
  · intro n hn
    rcases h.app.waiting ht rfl hn with hsettled | ⟨ftx, hftx, hnumber, hready, hheld⟩
    · exact .inl hsettled
    · exact .inr (.inr ⟨ftx, hftx, hnumber, hready, hheld.lock⟩)

theorem Inv.flagging (ht : s.app.tick = .flagging l)
    (hm : s.app.manager.ftxSentToSequencer (l.map (·.forcedTransactionNumber)) = .ok m) :
    Inv config ((s.withManager m).goto (.sending l)) := by
  obtain ⟨hlocked, rfl⟩ := SafeBlockNumberManager.ftxSentToSequencer_ok hm
  refine h.withApp (h.app.update (h.app.running (by simp [ht])) h.app.head
    (.inl (by simp [ht]; rfl)) ?_ ⟨h.tickOk ht, hlocked, fun ftx hftx => ?_⟩)
  · intro n hn
    rcases h.app.waiting ht rfl hn with hsettled | ⟨ftx, hftx, hnumber, hready, hheld⟩
    · exact .inl hsettled
    · exact .inr (.inr ⟨ftx, hftx, hnumber, hready, hheld.sent⟩)
  · exact List.mem_append_right _ (List.mem_map_of_mem hftx)

theorem Inv.sending (ht : s.app.tick = .sending l) : Inv config { s with
      sent := s.sent ++ l.map (·.forcedTransactionNumber)
      app := { s.app with tick := .idle } } := by
  obtain ⟨hsendable, hlocked, hflagged⟩ := h.tickOk ht
  have hphase := h.app.running (by simp [ht])
  refine ⟨{ h.sequencer with positive := ?_, received := ?_, sent := ?_ }, ?_⟩
  · intro n hn
    rcases List.mem_append.mp hn with hold | hnew
    · exact h.sequencer.positive n hold
    · obtain ⟨ftx, hftx, rfl⟩ := List.mem_map.mp hnew
      exact Nat.lt_of_lt_of_le (h.app.positive hphase)
        (h.app.queue.le_number (hsendable ftx hftx).1)
  · exact fun n hn => List.mem_append_left _ (h.sequencer.received n hn)
  · exact fun status hstatus => List.mem_append_left _ (h.sequencer.sent status hstatus)
  · refine { h.app with
      stopped := fun hne => absurd hphase hne, recorded := ?_, covered := ?_, tick := trivial }
    · exact fun n hn => .inl (h.app.settled_of_recorded ht rfl hn)
    · intro n hn
      have hold : n ∈ s.sent → Covered config s { s.app with tick := .idle } n := fun hn =>
        (h.app.covered n hn).known_subset (by simp [ht, told])
          (by simp [App.known, ht, Tick.remaining])
      rcases List.mem_append.mp hn with hn | hnew
      · exact hold hn
      · by_cases hn : n ∈ s.sent
        · exact hold hn
        -- what is sent for the first time is not processed yet
        · obtain ⟨ftx, hftx, rfl⟩ := List.mem_map.mp hnew
          obtain ⟨b, hb, hpos⟩ := SafeBlockNumberManager.locked_iff.mp hlocked
          refine .inr (.inr ⟨ftx, (hsendable ftx hftx).1, rfl, (hsendable ftx hftx).2,
            hflagged ftx hftx, b, hb, hpos, fun status hstatus heq => ?_⟩)
          exact absurd (heq ▸ h.sequencer.sent status hstatus) hn

theorem Inv.move (ht : s.app.tick = t) (hne : t ≠ .idle) (hrecording : t.recording = none)
    (hknown : ∀ ftx ∈ t.remaining.getD s.app.ftxQueue, ftx ∈ t'.remaining.getD s.app.ftxQueue)
    (htick : TickOk config s s.app t') : Inv config (s.goto t') := by
  subst ht
  exact h.goto (h.app.running hne) hrecording hknown htick

theorem Inv.tick (hok : Orderly s .tick) (hs : s.tick config = some s') : Inv config s' := by
  have htick := h.app.tick
  simp only [State.tick] at hs
  split at hs
  case h_1 ht =>
    obtain ⟨hphase, ⟨⟩⟩ := Option.ite_none_right_eq_some.mp hs
    refine h.goto hphase (by simp [ht, recording]) ?_ ?_
    · simp [App.known, ht, Tick.remaining, consecutiveFtxs_eq h.app.queue]
    · simp [TickOk, consecutiveFtxs_eq h.app.queue]
  case h_2 ht =>
    cases hs
    rw [ht] at htick
    exact h.move ht (by simp) rfl (fun _ hftx => hftx) htick
  case h_3 ftx remaining ht =>
    rw [ht] at htick
    split at hs
    · rename_i hrecorded
      cases hs
      exact h.move ht (by simp) rfl (fun _ hftx => hftx)
        ⟨htick, h.app.settled_of_recorded ht rfl hrecorded⟩
    · rename_i hrecorded
      cases hs
      exact h.move ht (by simp) rfl (fun _ hftx => hftx) ⟨htick, hrecorded⟩
  case h_4 ftx remaining ht =>
    rw [ht] at htick
    split at hs
    · cases hs
      exact h.move ht (by simp) rfl (fun _ hftx => hftx) htick.1
    · rename_i status hstatus
      cases hs
      exact h.move ht (by simp) rfl (fun _ hftx => hftx)
        ⟨htick.1, lineaFindForcedTransactionStatus_some hstatus, htick.2⟩
  case h_5 ht =>
    cases hs
    exact h.saving ht
  case h_6 ht =>
    obtain ⟨m, hm⟩ := h.saved_ok ht
    simp only [hm] at hs
    cases hs
    exact h.saved ht hm
  case h_7 ht =>
    rw [if_pos (hok (by simp [ht, told]))] at hs
    cases hs
    exact h.adding ht
  case h_8 ht =>
    cases hs
    exact h.removing ht
  case h_9 ftxs ht =>
    rw [ht] at htick
    split at hs
    · rename_i hempty
      cases hs
      exact h.move ht (by simp) rfl (fun _ hftx => htick.subset hftx)
        (h.settled_of_filter ht hempty)
    · cases hs
      refine h.move ht (by simp) rfl (fun _ hftx => htick.subset hftx) fun ftx hftx => ?_
      obtain ⟨hmem, hready⟩ := List.mem_filter.mp hftx
      exact ⟨htick.subset hmem, hready⟩
  case h_10 ht =>
    rw [ht] at htick
    cases hs
    exact h.withApp (h.app.update (h.app.running (by simp [ht]))
      (fun b hb => h.app.head b (SafeBlockNumberManager.release_safeBlockNumber hb))
      (.inl (by simp [ht, recording])) (fun n hn => .inl (htick n hn)) trivial)
  case h_11 ht =>
    rw [ht] at htick
    cases hs
    exact h.move ht (by simp) rfl (fun _ hftx => hftx) ⟨htick, Nat.le_refl _⟩
  case h_12 ht =>
    cases hs
    exact h.locking ht
  case h_13 ht =>
    split at hs
    · cases hs
      exact h.move ht (by simp) rfl (fun _ hftx => hftx) trivial
    · rename_i m hm
      cases hs
      exact h.flagging ht hm
  case h_14 ht =>
    cases hs
    exact h.sending ht

theorem Inv.fail (hs : s.fail = some s') : Inv config s' := by
  have htick := h.app.tick
  simp only [State.fail] at hs
  split at hs
  case h_5 => cases hs
  all_goals
    rename_i ht
    cases hs
    rw [ht] at htick
  · exact h.move ht nofun rfl (fun _ hftx => htick.subset hftx) trivial
  · exact h.move ht nofun rfl (fun _ hftx => htick.1.subset hftx) trivial
  · exact h.move ht nofun rfl (fun _ hftx => htick.1.subset hftx) trivial
  · exact h.move ht nofun rfl (fun _ hftx => hftx) trivial

theorem Inv.step (hok : Orderly s action) (hs : step config s action = some s') :
    Inv config s' := by
  have hlater := step_later hs
  cases action with
  | addForcedTransaction | passTime =>
    cases hs
    exact h.later hlater rfl rfl rfl { h.sequencer with }
  | produceBlock =>
    cases hs
    exact h.later hlater rfl rfl rfl { h.sequencer with
      records := fun r hr => Nat.le_succ_of_le (h.sequencer.records r hr) }
  | receive n =>
    obtain ⟨hn, ⟨⟩⟩ := Option.ite_none_right_eq_some.mp hs
    refine h.later hlater rfl rfl rfl { h.sequencer with received := fun n' hn' => ?_ }
    rcases List.mem_append.mp hn' with hold | hnew
    · exact h.sequencer.received n' hold
    · rwa [List.mem_singleton.mp hnew]
  | process => exact h.process hok hs
  | restart =>
    cases hs
    exact h.restart hok
  | checkVersion => exact h.checkVersion hs
  | resume => exact h.resume hs
  | searchL1 => exact h.searchL1 hs
  | onNewForcedTransaction => exact h.onNewForcedTransaction hs
  | caughtUp => exact h.caughtUp hs
  | tick => exact h.tick hok hs
  | fail => exact h.fail hs
  | consume =>
    cases hs
    exact h.withApp { h.app with }

end

theorem Inv.init (config : Config) (l1 : List Int) (now : Int) (head : Nat) :
    Inv config (.init l1 now head) where
  sequencer := ⟨nofun, nofun, nofun, nofun, nofun, nofun, nofun⟩
  app := {
    stopped := fun _ => ⟨rfl, rfl, rfl⟩
    positive := nofun
    queue := .nil
    next := rfl
    head := by
      rintro b ⟨⟩
      exact Nat.zero_le _
    settled := by
      rintro n (hn | hn)
      all_goals
        cases hn
    recorded := nofun
    covered := nofun
    tick := trivial }

-- Blocks that are safe to conflate

/-- What the sequencer has processed in a safe block is settled, apart from what the status updater
has told the manager of and is about to put into the processed queue. -/
theorem Inv.settled_of_safe (h : Inv config s) (hsafe : s.isBlockSafeToConflate k = true)
    (hstatus : status ∈ s.statuses) (hk : status.blockNumber ≤ k) :
    s.app.Settled status.ftxNumber ∨ s.app.tick.told = some status.ftxNumber := by
  rcases h.app.covered _ (h.sequencer.sent status hstatus) with
    hsettled | htold | ⟨-, -, -, -, -, b, hb, -, hlt⟩
  · exact .inl hsettled
  · exact .inr htold
  · have hkb := SafeBlockNumberManager.isBlockSafeToConflate_iff.mp hsafe b hb
    have := hlt status hstatus rfl
    omega

/-- When conflation may take a block of the chain, the forced transactions that the sequencer has
processed up to it, or ever will, are recorded, and the coordinator has put them into the processed
queue if they were not recorded before it was started. -/
theorem safe_blocks_recorded (h : Reaches (step config) Orderly (.init l1 now head) s)
    (hk : k ≤ s.head) (hsafe : s.isBlockSafeToConflate k = true) (htold : s.app.tick.told = none)
    (hlater : Reaches (step config) (fun _ _ => True) s s')
    (hstatus : status ∈ s'.statuses) (hle : status.blockNumber ≤ k) :
    status.ftxNumber ∈ s.recorded ∧
      (status.ftxNumber ∉ s.app.recordedBefore → status.ftxNumber ∈ s.app.processed) := by
  have hinv : Inv config s := h.invariant (Inv.init config l1 now head)
    fun _ _ _ hs hok hstep => hs.step hok hstep
  rcases (reaches_later hlater).statuses status hstatus with hold | hnew
  · rcases hinv.settled_of_safe hsafe hold hle with hsettled | htold'
    · exact ⟨hinv.app.settled _ hsettled, fun hnew => hsettled.resolve_right hnew⟩
    · cases htold.symm.trans htold'
  · omega

def startUp (events : Nat) : List Action :=
  [.checkVersion true, .resume (some 0), .searchL1] ++
    List.replicate events .onNewForcedTransaction ++ [.caughtUp]

def sendTick : List Action := List.replicate 8 .tick

theorem safe_blocks_recorded_two :
    ∃ s, Reaches (step ⟨10, 0⟩) Orderly (.init [0, 0] 0 10) s ∧
      s.isBlockSafeToConflate 12 = true ∧ 2 ∈ s.recorded ∧ 2 ∈ s.app.processed := by
  obtain ⟨s, hs, h⟩ : ∃ s, Reaches (step ⟨10, 0⟩) Orderly (.init [0, 0] 0 10) s ∧
      (s.head, s.isBlockSafeToConflate 12, s.app.tick.told, s.statuses, s.app.recordedBefore) =
        (12, true, none, [⟨1, 11, .included⟩, ⟨2, 12, .badNonce⟩], []) :=
    exists_reaches (startUp 2 ++ sendTick ++
      [.receive 1, .process 1 .included, .produceBlock, .receive 2, .process 2 .badNonce,
        .produceBlock] ++ List.replicate 14 .tick) _ (by decide +kernel)
  simp only [Prod.mk.injEq] at h
  obtain ⟨hhead, hsafe, htold, hstatuses, hbefore⟩ := h
  have hstatus : ⟨2, 12, .badNonce⟩ ∈ s.statuses := by simp [hstatuses]
  obtain ⟨hrecorded, hprocessed⟩ := safe_blocks_recorded hs (Nat.le_of_eq hhead.symm) hsafe htold
    .start hstatus (Nat.le_refl _)
  exact ⟨s, hs, hsafe, hrecorded, hprocessed (by simp [hbefore])⟩

def processFirst : List Action := [.receive 1, .process 1 .badNonce, .produceBlock]

/-- Whether a block is safe, with what was processed in which block, what is recorded and what was
put into the processed queue. -/
structure Report where
  head : Nat
  safe : Bool
  blocks : List (Nat × Nat)
  recorded : List Nat
  processed : List Nat
  deriving DecidableEq

def State.report (s : State) (k : Nat) : Report where
  head := s.head
  safe := s.isBlockSafeToConflate k
  blocks := s.statuses.map fun status => (status.ftxNumber, status.blockNumber)
  recorded := s.recorded
  processed := s.app.processed

/-- Block 11 is safe although not all of its forced transactions are settled: the first one is
recorded but not put into the processed queue yet; the second one of the block is not recorded
yet; a restart does not put what is recorded into the processed queue; after a restart, what the
coordinator before it sent is neither recorded nor held. -/
theorem safe_block_not_settled :
    (∃ s, Reaches (step ⟨10, 0⟩) (fun _ _ => True) (.init [0] 0 10) s ∧
      s.report 11 = ⟨11, true, [(1, 11)], [1], []⟩) ∧
    (∃ s, Reaches (step ⟨10, 0⟩) (fun _ _ => True) (.init [0, 0] 0 10) s ∧
      (s.app.tick.told, s.report 11) = (none, ⟨11, true, [(1, 11), (2, 11)], [1], [1]⟩)) ∧
    (∃ s, Reaches (step ⟨10, 0⟩) (fun _ _ => True) (.init [0] 0 10) s ∧
      (s.app.tick, s.report 11) = (.idle, ⟨11, true, [(1, 11)], [1], []⟩)) ∧
    ∃ s, Reaches (step ⟨10, 0⟩) (fun _ _ => True) (.init [0] 0 10) s ∧
      (s.app.tick, s.report 11) = (.idle, ⟨11, true, [(1, 11)], [], []⟩) := by
  refine ⟨?_, ?_, ?_, ?_⟩
  · exact exists_reaches
      (startUp 1 ++ sendTick ++ processFirst ++ List.replicate 5 .tick) _ (by decide +kernel)
  · exact exists_reaches (startUp 2 ++ sendTick ++
      [.receive 1, .process 1 .badNonce, .receive 2, .process 2 .badNonce, .produceBlock] ++
      List.replicate 6 .tick) _ (by decide +kernel)
  · exact exists_reaches (startUp 1 ++ sendTick ++ processFirst ++ List.replicate 8 .tick ++
      [.restart, .checkVersion true, .resume (some 0)]) _ (by decide +kernel)
  · exact exists_reaches
      (startUp 1 ++ sendTick ++ processFirst ++ [.restart] ++ startUp 1) _ (by decide +kernel)

end StatusNetwork.ForcedTransactions
