import StatusNetwork.Base.Interleaving
import StatusNetwork.ProverController.ControllerLaws

/-!
# Jobs are conserved

A request has one file, whatever the controllers do: a renaming keeps the request of a file. The
file of a job in progress is the one its controller has locked, until the job is done, deferred or
put back. A controller that got no SIGUSR1 puts a job back only after it has killed its worker.

With a SIGUSR1 the handler puts the active job back while the worker still runs, and between the
lock on a file and the next line there is no active job to put back.
-/

namespace StatusNetwork.ProverController

open Interleaving (Reaches exists_reaches)

variable {I : Type} [DecidableEq I]

-- Runs

/-- A worker that exits with the code of a success has written its response. -/
def Action.writesResponse : Action I → Bool
  | .workerExits _ exitCode wrote => exitCode = codeSuccess → wrote = true
  | _ => true

structure Inv (p : Prop) (s : State I) : Prop where
  unique : Files.Unique Path.request s.requests s.dirs.files
  locals : ∀ id, Local p s.dirs id (s.controllers id)
  success : ∀ r large, .done r large codeSuccess ∈ s.dirs.files →
    (∃ id, (s.controllers id).spotReclaimDetected = true) ∨ s.dirs.Responded p r

section
variable {s : State I} {localID : I}

omit [DecidableEq I] in
theorem Inv.init : Inv p (State.init : State I) where
  unique := ⟨List.nodup_nil, fun _ => Iff.rfl⟩
  locals id := by
    refine ⟨?_, trivial, ?_, ?_⟩
    · simp [MainOk, Has, State.init]
    · simp [WorkerOk, State.init]
    · simp [ContextOk, State.init]
  success _ _ h := by cases h

theorem Inv.act (h : Inv p s) (hf : ∀ d' c', f s.dirs (s.controllers localID) = some (d', c') →
      Local p d' localID c' ∧ Effect p localID s.dirs (s.controllers localID) d' c')
    (hs : s.act localID f = some s') : Inv p s' := by
  obtain ⟨⟨d', c'⟩, hstep, rfl⟩ := Option.map_eq_some_iff.mp hs
  obtain ⟨hlocal, heffect⟩ := hf d' c' hstep
  -- a flag that is set stays set
  have hspot : (∃ id, (s.controllers id).spotReclaimDetected = true) →
      ∃ id, (Function.update s.controllers localID c' id).spotReclaimDetected = true := by
    rintro ⟨id, hid⟩
    refine ⟨id, ?_⟩
    by_cases heq : id = localID
    · subst heq
      rw [Function.update_self]
      exact heffect.spot hid
    · rwa [Function.update_of_ne heq]
  refine ⟨?_, fun id => ?_, fun r large hdone => ?_⟩
  · obtain hfiles | ⟨old, new, hrename, hrequest, -⟩ := heffect.files
    · exact hfiles ▸ h.unique
    · exact h.unique.rename hrequest hrename
  · change Local p d' id (Function.update s.controllers localID c' id)
    by_cases heq : id = localID
    · subst heq
      rw [Function.update_self]
      exact hlocal
    · rw [Function.update_of_ne heq]
      exact (h.locals id).frame heffect heq
  · have hold (hmem : .done r large codeSuccess ∈ s.dirs.files) :
        (∃ id, (Function.update s.controllers localID c' id).spotReclaimDetected = true) ∨
          d'.Responded p r :=
      (h.success r large hmem).imp hspot (heffect.responses r)
    obtain hfiles | ⟨old, new, hrename, -, -, hnew⟩ := heffect.files
    · exact hold (hfiles ▸ hdone)
    · rcases ((Files.rename_eq_some hrename).2 _).mp hdone with heq | ⟨hmem, -⟩
      · exact (hnew r large heq.symm).imp (fun hs => hspot ⟨localID, hs⟩) (heffect.responses r)
      · exact hold hmem

theorem Inv.step (h : Inv p s) (hwrites : p → a.writesResponse)
    (hs : step config s a = some s') : Inv p s' := by
  cases a with
  | submit file =>
    obtain ⟨hnew, ⟨⟩⟩ := Option.ite_none_left_eq_some.mp hs
    have hunique : Files.Unique Path.request (file.request :: s.requests)
        (.queued file :: s.dirs.files) :=
      h.unique.cons (p := Path.queued file) hnew
    refine ⟨hunique, fun id => ?_, fun r large hdone => ?_⟩
    · have hlocal := h.locals id
      exact ⟨hlocal.main.congr rfl rfl (fun h => h) (fun h => h) (fun h => h)
        (fun _ => by simp [Has]) (fun _ hr => hr) fun _ => ⟨rfl, rfl, fun _ htmp => htmp⟩,
        hlocal.handler, hlocal.worker, hlocal.context⟩
    · exact h.success r large (by simpa using hdone)
  | signal localID signal =>
    simp only [ProverController.step] at hs
    refine h.act (fun d' c' hf => ?_) hs
    have hlocal := h.locals localID
    split at hf
    · cases hf
      exact ⟨hlocal, .same fun h => h⟩
    · cases hf
      exact ⟨hlocal.handle rfl id id hlocal.handler hlocal.context, .same id⟩
  | cancelByCaller localID =>
    simp only [ProverController.step] at hs
    refine h.act (fun d' c' hf => ?_) hs
    have hlocal := h.locals localID
    cases hf
    refine ⟨⟨?_, hlocal.handler, hlocal.worker.congr rfl rfl fun _ => rfl,
      ⟨fun _ => .inr (.inr rfl), hlocal.context.2⟩⟩, .same fun h => h⟩
    exact hlocal.main.congr rfl rfl (fun _ => rfl) (fun h => h) (fun _ => rfl) (fun _ => Iff.rfl)
      (fun _ hr => hr) fun _ => ⟨rfl, rfl, fun _ htmp => htmp⟩
  | graceTimer localID =>
    simp only [ProverController.step] at hs
    refine h.act (fun d' c' hf => ?_) hs
    have hlocal := h.locals localID
    obtain ⟨htimers, ⟨⟩⟩ := Option.ite_none_left_eq_some.mp hf
    have hgraceful := hlocal.context.2 htimers
    exact ⟨hlocal.handle rfl id (fun _ => rfl) hlocal.handler
      ⟨fun _ => .inr (.inl hgraceful), fun _ => hgraceful⟩, .same id⟩
  | main localID done => exact h.act (fun _ _ hf => main_ok (h.locals localID) hf) hs
  | buildCmdFails localID | startFails localID =>
    simp only [ProverController.step] at hs
    refine h.act (fun d' c' hf => ?_) hs
    obtain ⟨c', hf, ⟨⟩⟩ := Option.map_eq_some_iff.mp hf
    first
    | exact start_ok (h.locals localID) (.inl hf)
    | exact start_ok (h.locals localID) (.inr hf)
  | handler localID => exact h.act (fun _ _ hf => handler_ok (h.locals localID) hf) hs
  | workerExits localID exitCode wrote =>
    obtain ⟨hcode, hs⟩ := Option.ite_none_right_eq_some.mp hs
    exact h.act (fun _ _ hf => worker_ok (h.locals localID) hcode
      (fun hp => of_decide_eq_true (hwrites hp)) hf) hs

theorem Inv.of_reaches (h : Reaches (ProverController.step config) (fun _ _ => True)
    State.init s) : Inv False s :=
  h.invariant Inv.init fun _ _ _ hi _ hs => hi.step False.elim hs

def Controller.GivenUp (c : Controller) (w : Worker) : Prop :=
  w.killed = true ∨ c.spotReclaimDetected = true

omit [DecidableEq I] in
theorem Inv.has_of_worker (h : Inv p s) (hw : (s.controllers localID).worker = some w)
    (hup : ¬ (s.controllers localID).GivenUp w) : Has s.dirs localID w.job := by
  rw [Controller.GivenUp, not_or] at hup
  obtain ⟨-, retry, hm⟩ | ⟨hkilled, -⟩ := (h.locals localID).worker w hw
  · have hmain := (h.locals localID).main
    simp only [MainOk, hm] at hmain
    obtain ⟨-, hhas⟩ | ⟨-, hspot, -⟩ := hmain.1.active
    · exact hhas
    · exact absurd hspot hup.2
  · exact absurd hkilled hup.1

omit [DecidableEq I] in
theorem Inv.only (h : Inv p s) (hfile : Has s.dirs localID file)
    (hfile' : Has s.dirs localID file') :
    file' = file := by
  have hmain := (h.locals localID).main
  unfold MainOk at hmain
  split at hmain <;> grind [Held]

/-- A request has one file, queued, in progress or done. Of two workers for a request one is given
up. A main loop that returns without a SIGUSR1 and was not cancelled by its caller leaves nothing
in progress. If the workers write their responses, a request that was a success has its response as
long as there was no SIGUSR1. -/
theorem jobs_conserved (config : I → Config)
    (h : Reaches (step config) (fun _ _ => True) State.init s) :
    (∀ r ∈ s.requests, ∃! p, p ∈ s.dirs.files ∧ p.request = r) ∧
      (∀ a b w w', a ≠ b → (s.controllers a).worker = some w →
        (s.controllers b).worker = some w' → w.job.request = w'.job.request →
          (s.controllers a).GivenUp w ∨ (s.controllers b).GivenUp w') ∧
      (∀ id, (s.controllers id).main = .returned →
        (s.controllers id).spotReclaimDetected = true ∨
          (s.controllers id).cancelledByCaller = true ∨
          ∀ file, .inProgress file id ∉ s.dirs.files) ∧
      (Reaches (step config) (fun _ a => a.writesResponse) State.init s →
        ∀ r large, .done r large codeSuccess ∈ s.dirs.files →
          (∃ id, (s.controllers id).spotReclaimDetected = true) ∨ s.dirs.HasResponse r) := by
  have hinv := Inv.of_reaches h
  refine ⟨fun r hr => hinv.unique.existsUnique hr, fun a b w w' hab hw hw' heq => ?_,
    fun id hreturned => ?_, fun hwrites r large hdone => ?_⟩
  · by_contra hup
    rw [not_or] at hup
    have hpath := hinv.unique.eq_of_label (hinv.has_of_worker hw hup.1)
      (hinv.has_of_worker hw' hup.2) heq
    injection hpath with _ hlocal
    exact hab hlocal
  · have hmain := (hinv.locals id).main
    simp only [MainOk, hreturned] at hmain
    by_cases hactive : (s.controllers id).activeJob = none
    · refine .inr (.inr fun file hfile => ?_)
      have := hmain.1 file hfile
      rw [hactive] at this
      cases this
    · exact (hmain.2 hactive).imp_right .inl
  · have hinv : Inv True s :=
      hwrites.invariant Inv.init fun _ _ _ hi hok hs => hi.step (fun _ => hok) hs
    exact (hinv.success r large hdone).imp_right fun hr => hr trivial

/-- A controller has at most one file in progress, and a worker it has not given up has its file
there. -/
theorem one_job_at_a_time (config : I → Config)
    (h : Reaches (step config) (fun _ _ => True) State.init s) :
    (∀ file file', .inProgress file localID ∈ s.dirs.files →
      .inProgress file' localID ∈ s.dirs.files → file' = file) ∧
    ∀ w, (s.controllers localID).worker = some w → (s.controllers localID).GivenUp w ∨
      .inProgress w.job localID ∈ s.dirs.files := by
  have hinv := Inv.of_reaches h
  refine ⟨fun _ _ => hinv.only, fun w hw => ?_⟩
  rw [or_iff_not_imp_left]
  exact hinv.has_of_worker hw

end

-- Two controllers and one request

def oneRequest : FileName := ⟨⟨.execution, 1, 2, "", ""⟩, 0, []⟩

def executionOnly (_ : Bool) : Config := ⟨[.execution], false, [137], [77]⟩

def lockRequest (localID : Bool) : List (Action Bool) := List.replicate 7 (.main localID false)

def startWorker (localID : Bool) : List (Action Bool) := List.replicate 2 (.main localID false)

def workerStarted : List (Action Bool) :=
  .submit oneRequest :: lockRequest true ++ startWorker true

def shutDown (localID : Bool) : List (Action Bool) :=
  [.main localID true, .main localID false, .main localID true, .main localID false]

theorem jobs_conserved_two :
    (∃ s, Reaches (step executionOnly) (fun _ _ => True) State.init s ∧
      (s.controllers true).main = .returned ∧ ∀ file, .inProgress file true ∉ s.dirs.files) ∧
    ∃ s, Reaches (step executionOnly) (fun _ a => a.writesResponse) State.init s ∧
      .done oneRequest.request 0 codeSuccess ∈ s.dirs.files ∧
      s.dirs.HasResponse oneRequest.request := by
  constructor
  · -- the grace period ends before the worker does
    obtain ⟨s, hs, hend⟩ : ∃ s, Reaches (step executionOnly) (fun _ _ => True)
        State.init s ∧ ((s.controllers true).main, (s.controllers true).spotReclaimDetected,
          (s.controllers true).cancelledByCaller) = (.returned, false, false) :=
      exists_reaches (workerStarted ++ [.signal true .sigterm] ++
        List.replicate 3 (.handler true) ++ [.graceTimer true] ++ shutDown true ++
        [.main true false, .main true false]) _ (by decide +kernel)
    simp only [Prod.mk.injEq] at hend
    obtain ⟨-, -, hreturned, -⟩ := jobs_conserved executionOnly hs
    rcases hreturned true hend.1 with hspot | hcaller | hnone
    · rw [hend.2.1] at hspot
      cases hspot
    · rw [hend.2.2] at hcaller
      cases hcaller
    · exact ⟨s, hs, hend.1, hnone⟩
  · obtain ⟨s, hs, hend⟩ : ∃ s, Reaches (step executionOnly) (fun _ a => a.writesResponse)
        State.init s ∧ (s.dirs.files, (s.controllers true).spotReclaimDetected,
          (s.controllers false).spotReclaimDetected) =
            ([.done oneRequest.request 0 codeSuccess], false, false) :=
      exists_reaches (workerStarted ++ .workerExits true 0 true ::
        List.replicate 3 (.main true false)) _ (by decide +kernel)
    simp only [Prod.mk.injEq] at hend
    have hdone : .done oneRequest.request 0 codeSuccess ∈ s.dirs.files := by simp [hend.1]
    obtain ⟨-, -, -, hresponse⟩ := jobs_conserved executionOnly (hs.mono fun _ _ _ => trivial)
    obtain ⟨id, hspot⟩ | hresponse := hresponse hs _ _ hdone
    · cases id <;> simp [hend.2] at hspot
    · exact ⟨s, hs, hdone, hresponse⟩

theorem one_job_at_a_time_started : ∃ s : State Bool,
    (s.controllers true).worker = some ⟨oneRequest, false⟩ ∧
    .inProgress oneRequest true ∈ s.dirs.files ∧
    ∀ file, .inProgress file true ∈ s.dirs.files → file = oneRequest := by
  obtain ⟨s, hs, hobs⟩ : ∃ s, Reaches (step executionOnly) (fun _ _ => True) State.init s ∧
      ((s.controllers true).spotReclaimDetected, (s.controllers true).worker) =
        (false, some ⟨oneRequest, false⟩) :=
    exists_reaches workerStarted _ (by decide +kernel)
  obtain ⟨hspot, hworker⟩ := Prod.mk.inj hobs
  obtain ⟨honly, hworks⟩ := one_job_at_a_time executionOnly hs
  have hfile := (hworks _ hworker).resolve_left (by simp [Controller.GivenUp, hspot])
  exact ⟨s, hworker, hfile, fun file => honly _ file hfile⟩

/-- A job is left in progress when the caller cancels the context, and when a SIGUSR1 comes before
the locked job is the active one. A SIGUSR1 puts a job back while its worker runs, and another
controller starts a worker for it; and it can remove the response of a job that is then done. -/
theorem signals_lose_jobs :
    (∃ s, Reaches (step executionOnly) (fun _ _ => True) State.init s ∧
      ((s.controllers true).main, (s.controllers true).spotReclaimDetected, s.dirs.files) =
        (.returned, false, [.inProgress oneRequest true])) ∧
    (∃ s, Reaches (step executionOnly) (fun _ _ => True) State.init s ∧
      ((s.controllers true).main, (s.controllers true).cancelledByCaller, s.dirs.files) =
        (.returned, false, [.inProgress oneRequest true])) ∧
    (∃ s, Reaches (step executionOnly) (fun _ _ => True) State.init s ∧
      ((s.controllers true).worker, (s.controllers false).worker) =
        (some ⟨oneRequest, false⟩, some ⟨oneRequest, false⟩)) ∧
    ∃ s, Reaches (step executionOnly) (fun _ _ => True) State.init s ∧
      (s.dirs.files, s.dirs.responses oneRequest.request.responseFile) =
        ([.done oneRequest.request 0 codeSuccess], none) := by
  refine ⟨?_, ?_, ?_, ?_⟩
  · exact exists_reaches (workerStarted ++ [.cancelByCaller true] ++ shutDown true) _
      (by decide +kernel)
  · exact exists_reaches (.submit oneRequest :: lockRequest true ++ [.signal true .sigusr1] ++
      List.replicate 4 (.handler true) ++ startWorker true ++ shutDown true) _ (by decide +kernel)
  · exact exists_reaches (workerStarted ++ [.signal true .sigusr1] ++
      List.replicate 6 (.handler true) ++ lockRequest false ++ startWorker false) _
      (by decide +kernel)
  · exact exists_reaches (workerStarted ++
      [.workerExits true 0 true, .main true false, .signal true .sigusr1] ++
      List.replicate 5 (.handler true) ++ [.main true false, .main true false]) _
      (by decide +kernel)

end StatusNetwork.ProverController
