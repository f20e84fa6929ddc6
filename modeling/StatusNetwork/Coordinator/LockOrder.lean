import Mathlib.Data.Finset.Insert
import StatusNetwork.Base.Locks

/-!
# Locks of the conflation and aggregation components

The classes guard themselves with synchronized methods, and call each other while they hold their
locks: downwards when a block or a blob is delivered, and upwards when a deadline timer finds that
something has to be closed. Each method is the list of lock operations it performs; its arguments
say which branches it takes. Three orders of the locks result, and two calls can wait for each
other only if no order is common to them.
-/

namespace StatusNetwork.Coordinator.LockOrder

open Locks
open Interleaving (exec exists_reaches)

inductive Thread
  | worker
  | timer
  deriving DecidableEq

instance : Fintype Thread where
  elems := {.worker, .timer}
  complete t := by cases t <;> decide

/-- The order in which a call takes the locks: downwards; upwards from the calculator that closes
conflations or aggregations; upwards from the deadline calculator. -/
inductive Order
  | delivery
  | trigger
  | deadline
  deriving DecidableEq

instance : Fintype Order where
  elems := {.delivery, .trigger, .deadline}
  complete o := by cases o <;> decide

section
variable {L κ : Type} [DecidableEq L] (trace : κ → List (Op L)) (mayRun : Thread → κ → Bool)
  (follows : Order → κ → Bool)

/-- Overlapping calls share an order. -/
def InOrder (s : State Thread L κ) (a : Action Thread κ) : Prop :=
  Assigned mayRun s a ∧ SharesOrder follows s a

instance (s : State Thread L κ) : Decidable (InOrder mayRun follows s a) :=
  inferInstanceAs (Decidable (_ ∧ _))

/-- Two calls, one that follows only `o` and one that follows only `o'`, can end up waiting for
each other. -/
def Clash (o o' : Order) : Prop :=
  ∃ s t t', Reaches trace (Assigned mayRun) s ∧ Deadlock s ∧ t ≠ t' ∧
    (∃ c ∈ s.call t, ∀ o₁, follows o₁ c ↔ o₁ = o) ∧ ∃ c ∈ s.call t', ∀ o₁, follows o₁ c ↔ o₁ = o'

variable {trace mayRun follows}

theorem clash_of_run (l l' : L) (run : List (Action Thread κ))
    (h : (exec (step trace) (Assigned mayRun) idle run).map (fun s =>
      decide (Waits s .timer l .worker ∧ Waits s .worker l' .timer ∧
        (∃ c ∈ s.call .worker, ∀ o₁, follows o₁ c ↔ o₁ = o) ∧
        ∃ c ∈ s.call .timer, ∀ o₁, follows o₁ c ↔ o₁ = o')) = some true) :
    Clash trace mayRun follows o o' ∧ Clash trace mayRun follows o' o := by
  obtain ⟨s, hs, hwaits⟩ := exists_reaches run _ h
  obtain ⟨htimer, hworker, hcall, hcall'⟩ := of_decide_eq_true hwaits
  have hdead : Deadlock s := ⟨_, _, _, _, htimer, hworker⟩
  exact ⟨⟨s, .worker, .timer, hs, hdead, nofun, hcall, hcall'⟩,
    s, .timer, .worker, hs, hdead, nofun, hcall', hcall⟩

end

-- Conflation

namespace Conflation

inductive Obj
  | conflationService
  | globalBlobAwareCalculator
  | globalBlockCalculator
  | timeDeadlineCalculator
  | forcedTransactionCalculator
  | safeBlockNumberProvider
  | blobCompressionProofCoordinator
  deriving DecidableEq

/-- The calculators that are synchronized are the ones by forced transaction and by deadline; the
latter has no check of its own. -/
def checkOverflow : List (Op Obj) := sync .forcedTransactionCalculator []

def appendBlock : List (Op Obj) :=
  sync .forcedTransactionCalculator [] ++ sync .timeDeadlineCalculator []

def reset : List (Op Obj) :=
  sync .globalBlockCalculator
    (sync .forcedTransactionCalculator [] ++ sync .timeDeadlineCalculator [])

def handleConflation : List (Op Obj) := sync .conflationService []

def handleBatchTrigger (blobFired : Bool) : List (Op Obj) :=
  sync .globalBlobAwareCalculator
    (handleConflation ++ if blobFired then sync .blobCompressionProofCoordinator [] else [])

def fireConflationAndResetState (blobFired : Bool) : List (Op Obj) :=
  handleBatchTrigger blobFired ++ reset

/-- A block is appended, after a conflation was fired or without. -/
def globalBlockNewBlock (fired : Option Bool) : List (Op Obj) :=
  sync .globalBlockCalculator
    (checkOverflow ++ fired.elim [] fireConflationAndResetState ++ appendBlock)

def globalBlobAwareNewBlock (fired : Option Bool) : List (Op Obj) :=
  sync .globalBlobAwareCalculator (globalBlockNewBlock fired)

def isBlockSafeToConflate : List (Op Obj) := sync .safeBlockNumberProvider []

/-- The blocks that are next in order are sent on, until there is none or it is not safe yet. -/
def newBlock (sent : List (Option Bool)) (paused : Bool) : List (Op Obj) :=
  sync .conflationService
    (sent.flatMap (fun fired => isBlockSafeToConflate ++ globalBlobAwareNewBlock fired) ++
      if paused then isBlockSafeToConflate else [])

def handleConflationTrigger (nonEmpty : Bool) : List (Op Obj) :=
  sync .globalBlockCalculator (if nonEmpty then fireConflationAndResetState true else [])

/-- What is done with the latest safe block if the deadline has been reached. -/
def safeBlockReceived (nonEmpty : Bool) : List (Op Obj) :=
  handleConflationTrigger nonEmpty ++ sync .timeDeadlineCalculator []

inductive Call
  | newBlock (sent : List (Option Bool)) (paused : Bool)
  /-- Nothing is triggered, or not before the safe block is there. -/
  | checkConflationDeadline
  /-- The safe block is there at once, and triggers. -/
  | checkAndTrigger (nonEmpty : Bool)
  /-- The future of the safe block is completed later. -/
  | safeBlockReceived (nonEmpty : Bool)
  deriving DecidableEq

def trace : Call → List (Op Obj)
  | .newBlock sent paused => newBlock sent paused
  | .checkConflationDeadline => sync .timeDeadlineCalculator []
  | .checkAndTrigger nonEmpty => sync .timeDeadlineCalculator (safeBlockReceived nonEmpty)
  | .safeBlockReceived nonEmpty => safeBlockReceived nonEmpty

def mayRun : Thread → Call → Bool
  | .worker, .newBlock _ _ | .timer, .checkConflationDeadline | .timer, .checkAndTrigger _ => true
  | _, .safeBlockReceived _ => true
  | _, _ => false

def rank (o : Order) (l : Obj) : Nat :=
  List.idxOf l (match o with
    | .delivery => [.conflationService, .safeBlockNumberProvider, .globalBlobAwareCalculator,
        .globalBlockCalculator, .forcedTransactionCalculator, .timeDeadlineCalculator,
        .blobCompressionProofCoordinator]
    | .trigger => [.globalBlockCalculator, .globalBlobAwareCalculator, .conflationService,
        .safeBlockNumberProvider, .blobCompressionProofCoordinator, .forcedTransactionCalculator,
        .timeDeadlineCalculator]
    | .deadline => [.timeDeadlineCalculator, .globalBlockCalculator, .globalBlobAwareCalculator,
        .conflationService, .safeBlockNumberProvider, .blobCompressionProofCoordinator,
        .forcedTransactionCalculator])

/-- A call that sends no block on, or triggers nothing late, follows every order. -/
def follows : Order → Call → Bool
  | _, .newBlock [] _ | _, .checkConflationDeadline | _, .safeBlockReceived false => true
  | .delivery, .newBlock _ _ | .trigger, .safeBlockReceived true => true
  | .deadline, .checkAndTrigger _ => true
  | _, _ => false

theorem exists_follows (c : Call) : ∃ o, follows o c := by
  cases c with
  | newBlock sent paused => exact ⟨.delivery, by cases sent <;> rfl⟩
  | checkConflationDeadline | checkAndTrigger => exact ⟨.deadline, rfl⟩
  | safeBlockReceived nonEmpty => exact ⟨.trigger, by cases nonEmpty <;> rfl⟩

theorem trace_climbs (c : Call) (o : Order) (h : follows o c) :
    Climbs (rank o) [] [] (trace c) := by
  cases c with
  | newBlock sent paused =>
    refine .sync (.inr (by simp)) (.append (.flatMap fun fired hmem => ?_) ?_)
    · obtain rfl : o = .delivery := by
        cases sent <;> cases o <;> simp_all [follows]
      cases fired with
      | none => decide
      | some blobFired => cases blobFired <;> decide
    · cases paused <;> cases o <;> decide
  | checkConflationDeadline => cases o <;> decide
  | checkAndTrigger nonEmpty | safeBlockReceived nonEmpty =>
    cases o <;> cases nonEmpty <;> first | decide | cases h

/-- The timer holds the lock of the deadline calculator when its check triggers; the worker appends
a block meanwhile. -/
def deadlineAgainstAppend : List (Action Thread Call) :=
  [.start .timer (.checkAndTrigger true), .start .worker (.newBlock [none] false), .run .timer] ++
    List.replicate 9 (.run .worker)

/-- The safe block arrives later; it triggers while the worker is between two calculators. -/
def triggerAgainstNewBlock : List (Action Thread Call) :=
  [.start .timer (.safeBlockReceived true), .start .worker (.newBlock [none] false),
    .run .timer] ++ List.replicate 4 (.run .worker)

/-- The worker triggers late, and resets the calculators when the next check holds the lock of the
deadline calculator. -/
def deadlineAgainstTrigger : List (Action Thread Call) :=
  [.start .timer (.checkAndTrigger true), .start .worker (.safeBlockReceived true), .run .timer] ++
    List.replicate 10 (.run .worker)

theorem clashes (o o' : Order) (h : o ≠ o') : Clash trace mayRun follows o o' := by
  have hdelivery : Clash trace mayRun follows .delivery .trigger ∧ _ :=
    clash_of_run .globalBlobAwareCalculator .globalBlockCalculator triggerAgainstNewBlock
      (by decide +kernel)
  have hdeadline : Clash trace mayRun follows .delivery .deadline ∧ _ :=
    clash_of_run .globalBlockCalculator .timeDeadlineCalculator deadlineAgainstAppend
      (by decide +kernel)
  have htrigger : Clash trace mayRun follows .trigger .deadline ∧ _ :=
    clash_of_run .globalBlockCalculator .timeDeadlineCalculator deadlineAgainstTrigger
      (by decide +kernel)
  cases o <;> cases o' <;> simp_all

end Conflation

-- Aggregation

namespace Aggregation

inductive Obj
  | proofAggregationCoordinatorService
  | globalAggregationCalculator
  | deadlineCalculator
  | forcedTransactionCalculator
  /-- The calculator by target block numbers inside the one by forced transactions. -/
  | forcedTransactionDelegate
  | proofLimitCalculator
  | targetBlockNumbersCalculator
  | blobLimitCalculator
  | hardForkCalculator
  deriving DecidableEq

/-- The synchronized triggers behind the one by forced transactions. -/
def otherTriggers : List (Op Obj) :=
  sync .proofLimitCalculator [] ++ sync .targetBlockNumbersCalculator [] ++
    sync .blobLimitCalculator [] ++ sync .hardForkCalculator []

def consumeProcessedFtxs : List (Op Obj) := sync .forcedTransactionCalculator []

def checkAggregationTrigger : List (Op Obj) :=
  sync .forcedTransactionCalculator
    (consumeProcessedFtxs ++ sync .forcedTransactionDelegate []) ++ otherTriggers

def triggersNewBlob : List (Op Obj) :=
  sync .forcedTransactionCalculator (sync .forcedTransactionDelegate []) ++ otherTriggers ++
    sync .deadlineCalculator []

def resetTriggerCalculators : List (Op Obj) :=
  sync .forcedTransactionCalculator
    (consumeProcessedFtxs ++ sync .forcedTransactionDelegate []) ++ otherTriggers ++
    sync .deadlineCalculator []

def onAggregation : List (Op Obj) := sync .proofAggregationCoordinatorService []

/-- The blobs that are processed one after the other: each is added to the triggers, or it sets off
an aggregation, after which some blobs are processed again. -/
inductive Blobs
  | nil
  | added (rest : Blobs)
  | aggregated (reprocessed rest : Blobs)
  deriving DecidableEq

def processBlobs : Blobs → List (Op Obj)
  | .nil => []
  | .added rest => checkAggregationTrigger ++ triggersNewBlob ++ processBlobs rest
  | .aggregated reprocessed rest =>
    checkAggregationTrigger ++
      sync .globalAggregationCalculator
        (resetTriggerCalculators ++ onAggregation ++ processBlobs reprocessed) ++
      processBlobs rest

def handleAggregationTrigger (reprocessed : Option Blobs) : List (Op Obj) :=
  sync .globalAggregationCalculator (reprocessed.elim [] fun blobs =>
    resetTriggerCalculators ++ onAggregation ++ processBlobs blobs)

def newBlob (blob : Blobs) : List (Op Obj) :=
  sync .globalAggregationCalculator (processBlobs blob)

inductive Call
  | action (blobs : List Blobs)
  | actionPolls
  | blobsFound (blobs : List Blobs)
  | checkAggregation
  | checkAndTrigger (reprocessed : Option Blobs)
  | criteriaMet (reprocessed : Option Blobs)
  deriving DecidableEq

def trace : Call → List (Op Obj)
  | .action blobs => sync .proofAggregationCoordinatorService (blobs.flatMap newBlob)
  | .actionPolls => sync .proofAggregationCoordinatorService []
  | .blobsFound blobs => blobs.flatMap newBlob
  | .checkAggregation => sync .deadlineCalculator []
  | .checkAndTrigger reprocessed =>
    sync .deadlineCalculator (handleAggregationTrigger reprocessed)
  | .criteriaMet reprocessed => handleAggregationTrigger reprocessed

def mayRun : Thread → Call → Bool
  | .worker, .action _ | .worker, .actionPolls => true
  | .timer, .checkAggregation | .timer, .checkAndTrigger _ => true
  | _, .blobsFound _ | _, .criteriaMet _ => true
  | _, _ => false

def rank (o : Order) (l : Obj) : Nat :=
  let triggers := [.forcedTransactionCalculator, .forcedTransactionDelegate, .proofLimitCalculator,
    .targetBlockNumbersCalculator, .blobLimitCalculator, .hardForkCalculator]
  List.idxOf l (match o with
    | .delivery => [.proofAggregationCoordinatorService, .globalAggregationCalculator] ++
        triggers ++ [.deadlineCalculator]
    | .trigger => [.globalAggregationCalculator] ++ triggers ++
        [.deadlineCalculator, .proofAggregationCoordinatorService]
    | .deadline => [.deadlineCalculator, .globalAggregationCalculator] ++ triggers ++
        [.proofAggregationCoordinatorService])

def Blobs.aggregates : Blobs → Bool
  | .nil => false
  | .added rest => rest.aggregates
  | .aggregated _ _ => true

/-- Blobs that are only added are found late in both the order of a delivery and that of a
trigger. -/
def follows : Order → Call → Bool
  | _, .action [] | _, .actionPolls | _, .blobsFound [] => true
  | _, .checkAggregation | _, .criteriaMet none => true
  | .delivery, .action _ | .trigger, .blobsFound _ | .trigger, .criteriaMet _ => true
  | .delivery, .blobsFound blobs => blobs.all (! ·.aggregates)
  | .deadline, .checkAndTrigger _ => true
  | _, _ => false

theorem exists_follows (c : Call) : ∃ o, follows o c := by
  cases c with
  | action blobs => exact ⟨.delivery, by cases blobs <;> rfl⟩
  | blobsFound blobs => exact ⟨.trigger, by cases blobs <;> rfl⟩
  | criteriaMet reprocessed => exact ⟨.trigger, by cases reprocessed <;> rfl⟩
  | actionPolls | checkAggregation | checkAndTrigger => exact ⟨.deadline, rfl⟩

section
variable {o : Order} {held : List Obj}

/-- Every lock may be taken, but for that of the service if no blob is aggregated. -/
structure Ready (o : Order) (held : List Obj) (aggregates : Bool) : Prop where
  global : .globalAggregationCalculator ∈ held
  free : ∀ l, l ≠ .proofAggregationCoordinatorService ∨ aggregates → Free (rank o) held l

theorem Ready.again (h : Ready o held b) : Ready o (.globalAggregationCalculator :: held) b where
  global := List.mem_cons_self
  free l hl := (h.free l hl).imp (List.mem_cons_of_mem _) fun hlt =>
    List.forall_mem_cons.mpr ⟨hlt _ h.global, hlt⟩

theorem Ready.sync (h : Ready o held b) (hl : l ≠ .proofAggregationCoordinatorService ∨ b) :
    Climbs (rank o) held held (sync l []) :=
  .one (h.free l hl)

theorem Ready.triggers (h : Ready o held b) :
    Climbs (rank o) held held checkAggregationTrigger ∧
    Climbs (rank o) held held triggersNewBlob ∧
    Climbs (rank o) held held resetTriggerCalculators := by
  have hone {l : Obj} (hl : l ≠ .proofAggregationCoordinatorService) := h.sync (.inl hl)
  have hothers : Climbs (rank o) held held otherTriggers :=
    (((hone (by decide)).append (hone (by decide))).append (hone (by decide))).append
      (hone (by decide))
  have hftx := h.free .forcedTransactionCalculator (.inl (by decide))
  have hdelegate : Free (rank o) (.forcedTransactionCalculator :: held)
      .forcedTransactionDelegate := by
    refine (h.free _ (.inl (by decide))).imp (List.mem_cons_of_mem _) fun hlt => ?_
    exact List.forall_mem_cons.mpr ⟨by cases o <;> decide, hlt⟩
  have hcheck : Climbs (rank o) held held checkAggregationTrigger :=
    (Climbs.sync hftx (.append (.one (.inl List.mem_cons_self)) (.one hdelegate))).append hothers
  have hnew : Climbs (rank o) held held triggersNewBlob :=
    ((Climbs.sync hftx (.one hdelegate)).append hothers).append (hone (by decide))
  exact ⟨hcheck, hnew, hcheck.append (hone (by decide))⟩

theorem processBlobs_climbs (h : Ready o held b) (hb : blobs.aggregates → b) :
    Climbs (rank o) held held (processBlobs blobs) := by
  obtain ⟨hcheck, hnew, -⟩ := h.triggers
  induction blobs generalizing held with
  | nil => rfl
  | added rest ih => exact (hcheck.append hnew).append (ih h hb hcheck hnew)
  | aggregated reprocessed rest ihr ih =>
    obtain ⟨hcheck', hnew', hreset⟩ := h.again.triggers
    refine (hcheck.append (.sync (.inl h.global) ?_)).append (ih h (fun _ => hb rfl) hcheck hnew)
    exact (hreset.append (h.again.sync (.inr (hb rfl)))).append
      (ihr h.again (fun _ => hb rfl) hcheck' hnew')

theorem handleAggregationTrigger_climbs (hfree : Free (rank o) held .globalAggregationCalculator)
    (h : reprocessed.isSome → Ready o (.globalAggregationCalculator :: held) true) :
    Climbs (rank o) held held (handleAggregationTrigger reprocessed) := by
  cases reprocessed with
  | none => exact .one hfree
  | some blobs =>
    have hready := h rfl
    obtain ⟨-, -, hreset⟩ := hready.triggers
    exact .sync hfree ((hreset.append (hready.sync (.inr rfl))).append
      (processBlobs_climbs hready fun _ => rfl))

end

theorem ready_delivery (b : Bool) :
    Ready .delivery [.globalAggregationCalculator, .proofAggregationCoordinatorService] b where
  global := by decide
  free l _ := by cases l <;> decide

theorem ready_trigger (b : Bool) : Ready .trigger [.globalAggregationCalculator] b where
  global := by decide
  free l _ := by cases l <;> decide

theorem ready_deadline :
    Ready .deadline [.globalAggregationCalculator, .deadlineCalculator] true where
  global := by decide
  free l _ := by cases l <;> decide

theorem ready_found : Ready .delivery [.globalAggregationCalculator] false where
  global := by decide
  free l hl := by cases l <;> revert hl <;> decide

theorem trace_climbs (c : Call) (o : Order) (h : follows o c) :
    Climbs (rank o) [] [] (trace c) := by
  have hempty (l) : Free (rank o) [] l := .inr (by simp)
  cases c with
  | action blobs =>
    refine .sync (hempty _) (.flatMap fun blob hmem => ?_)
    obtain rfl : o = .delivery := by cases blobs <;> cases o <;> simp_all [follows]
    exact .sync (.inr (by decide)) (processBlobs_climbs (ready_delivery true) fun _ => rfl)
  | blobsFound blobs =>
    refine .flatMap fun blob hmem => .sync (hempty _) ?_
    cases o with
    | delivery =>
      have hall : blobs.all (! ·.aggregates) := by cases blobs <;> simp_all [follows]
      exact processBlobs_climbs ready_found fun hb => by
        simpa [hb] using List.all_eq_true.mp hall blob hmem
    | trigger => exact processBlobs_climbs (ready_trigger true) fun _ => rfl
    | deadline => cases blobs <;> simp_all [follows]
  | actionPolls | checkAggregation => exact .one (hempty _)
  | checkAndTrigger reprocessed =>
    obtain rfl : o = .deadline := by cases o <;> simp_all [follows]
    exact .sync (hempty _) (handleAggregationTrigger_climbs (.inr (by decide)) fun _ =>
      ready_deadline)
  | criteriaMet reprocessed =>
    refine handleAggregationTrigger_climbs (hempty _) fun hsome => ?_
    obtain rfl : o = .trigger := by cases reprocessed <;> cases o <;> simp_all [follows]
    exact ready_trigger true

def deadlineAgainstNewBlob : List (Action Thread Call) :=
  [.start .timer (.checkAndTrigger (some .nil)), .start .worker (.action [.added .nil]),
    .run .timer] ++ List.replicate 28 (.run .worker)

def triggerAgainstNewBlob : List (Action Thread Call) :=
  [.start .timer (.criteriaMet (some .nil)), .start .worker (.action [.added .nil]),
    .run .worker] ++ List.replicate 17 (.run .timer)

def deadlineAgainstTrigger : List (Action Thread Call) :=
  [.start .timer (.checkAndTrigger (some .nil)), .start .worker (.criteriaMet (some .nil)),
    .run .timer] ++ List.replicate 15 (.run .worker)

theorem clashes (o o' : Order) (h : o ≠ o') : Clash trace mayRun follows o o' := by
  have hdelivery : Clash trace mayRun follows .delivery .trigger ∧ _ :=
    clash_of_run .proofAggregationCoordinatorService .globalAggregationCalculator
      triggerAgainstNewBlob (by decide +kernel)
  have hdeadline : Clash trace mayRun follows .delivery .deadline ∧ _ :=
    clash_of_run .globalAggregationCalculator .deadlineCalculator deadlineAgainstNewBlob
      (by decide +kernel)
  have htrigger : Clash trace mayRun follows .trigger .deadline ∧ _ :=
    clash_of_run .globalAggregationCalculator .deadlineCalculator deadlineAgainstTrigger
      (by decide +kernel)
  cases o <;> cases o' <;> simp_all

end Aggregation

-- Mutual waiting

/-- In both components, a deadline check that triggers and a delivery can end up waiting for each
other: when the answer about the safe block is there at once, and when it comes later. -/
theorem exists_deadlock :
    (∃ s, Reaches Conflation.trace (Assigned Conflation.mayRun) s ∧
      Waits s .timer .globalBlockCalculator .worker ∧
      Waits s .worker .timeDeadlineCalculator .timer) ∧
    (∃ s, Reaches Conflation.trace (Assigned Conflation.mayRun) s ∧
      Waits s .timer .globalBlobAwareCalculator .worker ∧
      Waits s .worker .globalBlockCalculator .timer) ∧
    ∃ s, Reaches Aggregation.trace (Assigned Aggregation.mayRun) s ∧
      Waits s .timer .globalAggregationCalculator .worker ∧
      Waits s .worker .deadlineCalculator .timer := by
  refine ⟨?_, ?_, ?_⟩
  · obtain ⟨s, hs, hwait⟩ : ∃ s, Reaches Conflation.trace (Assigned Conflation.mayRun) s ∧
        decide (Waits s .timer .globalBlockCalculator .worker ∧
          Waits s .worker .timeDeadlineCalculator .timer) = true :=
      exists_reaches Conflation.deadlineAgainstAppend _ (by decide +kernel)
    exact ⟨s, hs, of_decide_eq_true hwait⟩
  · obtain ⟨s, hs, hwait⟩ : ∃ s, Reaches Conflation.trace (Assigned Conflation.mayRun) s ∧
        decide (Waits s .timer .globalBlobAwareCalculator .worker ∧
          Waits s .worker .globalBlockCalculator .timer) = true :=
      exists_reaches Conflation.triggerAgainstNewBlock _ (by decide +kernel)
    exact ⟨s, hs, of_decide_eq_true hwait⟩
  · obtain ⟨s, hs, hwait⟩ : ∃ s, Reaches Aggregation.trace (Assigned Aggregation.mayRun) s ∧
        decide (Waits s .timer .globalAggregationCalculator .worker ∧
          Waits s .worker .deadlineCalculator .timer) = true :=
      exists_reaches Aggregation.deadlineAgainstNewBlob _ (by decide +kernel)
    exact ⟨s, hs, of_decide_eq_true hwait⟩

/-- As long as calls that overlap share a lock order, the two threads of a component never wait for
each other. Calls of any two different orders can. -/
theorem no_deadlock_in_order {c : State Thread Conflation.Obj Conflation.Call}
    {a : State Thread Aggregation.Obj Aggregation.Call}
    (hc : Reaches Conflation.trace (InOrder Conflation.mayRun Conflation.follows) c)
    (ha : Reaches Aggregation.trace (InOrder Aggregation.mayRun Aggregation.follows) a) :
    (¬ Deadlock c ∧ ¬ Deadlock a) ∧ ∀ o o', o ≠ o' →
      Clash Conflation.trace Conflation.mayRun Conflation.follows o o' ∧
      Clash Aggregation.trace Aggregation.mayRun Aggregation.follows o o' := by
  refine ⟨⟨?_, ?_⟩, fun o o' h => ⟨Conflation.clashes o o' h, Aggregation.clashes o o' h⟩⟩
  · exact Locks.no_deadlock Conflation.exists_follows Conflation.trace_climbs (fun _ _ h => h.2) hc
  · exact Locks.no_deadlock Aggregation.exists_follows Aggregation.trace_climbs
      (fun _ _ h => h.2) ha

/-- A delivery that a check overlaps, and a check that triggers once it is over. -/
def deliveryThenTrigger : List (Action Thread Conflation.Call) :=
  [.start .worker (.newBlock [none] false), .run .worker,
    .start .timer .checkConflationDeadline, .run .timer] ++ List.replicate 8 (.run .worker) ++
    [.run .timer] ++ List.replicate 5 (.run .worker) ++
    [.start .timer (.checkAndTrigger true), .run .timer, .run .timer,
      .start .worker (.newBlock [] true), .run .worker]

/-- Blobs are found late while others are delivered. -/
def foundWhileDelivered : List (Action Thread Aggregation.Call) :=
  [.start .worker (.action [.aggregated .nil .nil]), .run .worker,
    .start .timer (.blobsFound [.added .nil]), .run .timer]

theorem no_deadlock_in_order_overlap :
    ∃ (c : State Thread Conflation.Obj Conflation.Call)
      (a : State Thread Aggregation.Obj Aggregation.Call),
      (c.held .timer = [.globalBlockCalculator, .timeDeadlineCalculator] ∧
        c.held .worker = [.conflationService]) ∧
      Waits a .worker .globalAggregationCalculator .timer ∧ ¬ Deadlock c ∧ ¬ Deadlock a := by
  obtain ⟨c, hc, hheld⟩ : ∃ c, Reaches Conflation.trace
      (InOrder Conflation.mayRun Conflation.follows) c ∧
      decide (c.held .timer = [.globalBlockCalculator, .timeDeadlineCalculator] ∧
        c.held .worker = [.conflationService]) = true :=
    exists_reaches deliveryThenTrigger _ (by decide +kernel)
  obtain ⟨a, ha, hwaits⟩ : ∃ a, Reaches Aggregation.trace
      (InOrder Aggregation.mayRun Aggregation.follows) a ∧
      decide (Waits a .worker .globalAggregationCalculator .timer) = true :=
    exists_reaches foundWhileDelivered _ (by decide +kernel)
  exact ⟨c, a, of_decide_eq_true hheld, of_decide_eq_true hwaits, (no_deadlock_in_order hc ha).1⟩

end StatusNetwork.Coordinator.LockOrder
