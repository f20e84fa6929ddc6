import StatusNetwork.ProverController.Controller

/-!
# Steps of a controller

What the main loop of a controller relies on, at each of its places, and that the steps of the main
loop, of the signal handler and of the worker keep it. A controller has at most one file in
progress. It is the one of the active job, but for the time between the lock and the assignment
after it. Only the handler of the same controller interferes, after a SIGUSR1.
-/

namespace StatusNetwork.ProverController

variable {I : Type}

-- What a controller relies on

/-- The response file of the request is there, and was written for a request with that name of the
response file. -/
def Directories.HasResponse (d : Directories I) (r : Request) : Prop :=
  ∃ r', d.responses r.responseFile = some r' ∧ r'.responseFile = r.responseFile

/-- The response is there if the workers write theirs, as `p` says. -/
def Directories.Responded (p : Prop) (d : Directories I) (r : Request) : Prop :=
  p → d.HasResponse r

/-- The main loop is done with its last job, or was told to stop. -/
def Main.over : Main → Bool
  | .select | .checkContext | .deferring _ _ | .killed _ | .clearing | .exiting
  | .requeueRemove _ | .requeueRename _ | .returned => true
  | _ => false

section
variable (p : Prop) (d : Directories I) (localID : I) (c : Controller)

def Has (file : FileName) : Prop := .inProgress file localID ∈ d.files

/-- The main loop has locked the file: it is the active job, unless the handler has put it back. -/
structure Held (job : FileName) : Prop where
  only : ∀ file, Has d localID file → file = job
  active : (c.activeJob = some job ∧ Has d localID job) ∨
    (c.activeJob = none ∧ c.spotReclaimDetected = true ∧ ∀ file, ¬ Has d localID file)

/-- The worker has written the response, and nobody but the handler has removed it. -/
def TmpWritten (job : FileName) : Prop :=
  p → d.tmpResponse localID job.request.job = some job.request ∨
    (c.spotReclaimDetected = true ∧ d.tmpResponse localID job.request.job = none)

def MainOk : Prop :=
  match c.main with
  | .select | .checkContext => (∀ file, Has d localID file → c.activeJob = some file) ∧
      (c.activeJob ≠ none → c.cancelled = true)
  | .checkGracefulShutdown | .checkSpotReclaim | .listing _ _ | .lockBest _ =>
    (∀ file, ¬ Has d localID file) ∧ c.activeJob = none
  | .locked job => (∀ file, Has d localID file → file = job) ∧ Has d localID job ∧
      c.activeJob = none
  | .starting job _ | .deferring job _ => Held d localID c job
  | .killed job => Held d localID c job ∧ c.cancelled = true
  | .waiting job _ => Held d localID c job ∧
      ∀ exitCode ∈ c.exitCode, c.worker = none ∧ exitCode ≠ codeKilledByUs ∧
        (exitCode = codeSuccess → TmpWritten p d localID c job)
  | .movingResponse job => Held d localID c job ∧ TmpWritten p d localID c job
  | .movingDone job exitCode => Held d localID c job ∧
      (exitCode = codeSuccess → c.spotReclaimDetected = true ∨ d.Responded p job.request)
  | .clearing => ∀ file, ¬ Has d localID file
  | .exiting => (∀ file, Has d localID file → c.activeJob = some file) ∧ c.cancelled = true
  | .requeueRemove job | .requeueRename job =>
    (∀ file, Has d localID file → file = job) ∧ c.activeJob = some job ∧ c.cancelled = true
  | .returned => (∀ file, Has d localID file → c.activeJob = some file) ∧
      (c.activeJob ≠ none → c.spotReclaimDetected = true ∨ c.cancelledByCaller = true)

def HandlerOk : Prop :=
  match c.handler with
  | .checkGracefulShutdown | .lockForRequeue => c.spotReclaimDetected = true
  | .requeueRemove job | .requeueRename job =>
    c.spotReclaimDetected = true ∧ c.activeJob = some job ∧ c.main.holdsMutex = false
  | .lockForShutdown => c.gracefulShutdownRequested = true
  | _ => True

/-- A worker that was not killed is waited for. -/
def WorkerOk : Prop :=
  ∀ w ∈ c.worker, (w.killed = false ∧ ∃ retry, c.main = .waiting w.job retry) ∨
    (w.killed = true ∧ c.cancelled = true ∧ c.main.over = true)

/-- The context is done for a reason. -/
def ContextOk : Prop :=
  (c.cancelled = true → c.spotReclaimDetected = true ∨ c.gracefulShutdownRequested = true ∨
    c.cancelledByCaller = true) ∧
  (c.graceTimers ≠ 0 → c.gracefulShutdownRequested = true)

structure Local : Prop where
  main : MainOk p d localID c
  handler : HandlerOk c
  worker : WorkerOk c
  context : ContextOk c

end

/-- A reclaim that was detected stays so. -/
abbrev SpotKept (c c' : Controller) : Prop :=
  c.spotReclaimDetected = true → c'.spotReclaimDetected = true

section
variable {d d' : Directories I} {localID id : I} {c c' : Controller} {job : FileName}

theorem HandlerOk.congr (h : HandlerOk c) (hhandler : c'.handler = c.handler)
    (hspot : SpotKept c c')
    (hgraceful : c.gracefulShutdownRequested = true → c'.gracefulShutdownRequested = true)
    (hmutex : c.handler.holdsMutex = true →
      c'.activeJob = c.activeJob ∧ c'.main.holdsMutex = c.main.holdsMutex) : HandlerOk c' := by
  unfold HandlerOk at h ⊢
  rw [hhandler]
  split at h
  · exact hspot h
  · exact hspot h
  iterate 2
    · rename_i hh
      obtain ⟨hactive, hmain⟩ := hmutex (by rw [hh]; rfl)
      exact ⟨hspot h.1, hactive ▸ h.2.1, hmain ▸ h.2.2⟩
  · exact hgraceful h
  · trivial

theorem WorkerOk.leave (h : WorkerOk c) (hworker : c'.worker = c.worker)
    (hcancelled : c.cancelled = true → c'.cancelled = true)
    (hmain : ∀ job retry, c.main ≠ .waiting job retry)
    (hover : c.main.over = true → c.cancelled = true → c'.main.over = true) : WorkerOk c' := by
  intro w hw
  rw [hworker] at hw
  obtain ⟨-, retry, hwaiting⟩ | ⟨hkilled, hc, ho⟩ := h w hw
  · exact absurd hwaiting (hmain _ _)
  · exact .inr ⟨hkilled, hcancelled hc, hover ho hc⟩

theorem WorkerOk.congr (h : WorkerOk c) (hmain : c'.main = c.main) (hworker : c'.worker = c.worker)
    (hcancelled : c.cancelled = true → c'.cancelled = true) : WorkerOk c' := by
  intro w hw
  rw [hworker] at hw
  rw [hmain]
  exact (h w hw).imp_right fun hk => ⟨hk.1, hcancelled hk.2.1, hk.2.2⟩

theorem Held.congr (h : Held d localID c job) (hactive : c'.activeJob = c.activeJob)
    (hspot : SpotKept c c')
    (hfiles : ∀ file, Has d' localID file ↔ Has d localID file) : Held d' localID c' job := by
  refine ⟨fun file hfile => h.only file ((hfiles file).mp hfile), ?_⟩
  rw [hactive]
  refine h.active.imp (fun h => ⟨h.1, (hfiles job).mpr h.2⟩) fun h => ⟨h.1, hspot h.2.1, ?_⟩
  exact fun file hfile => h.2.2 file ((hfiles file).mp hfile)

theorem Held.active_of_has (h : Held d localID c job) (hfile : Has d localID file) :
    c.activeJob = some file := by
  obtain ⟨hactive, -⟩ | ⟨-, -, hnone⟩ := h.active
  · rw [hactive, h.only file hfile]
  · exact absurd hfile (hnone file)

section
variable (config : Config)
include config

theorem afterRun_cases (job : FileName) (retry : Bool) (exitCode : Nat) :
    (config.afterRun job retry exitCode = .starting job true ∧ exitCode ≠ codeKilledByUs) ∨
      config.afterRun job retry exitCode = config.dispatch job exitCode := by
  unfold Config.afterRun
  split
  · rename_i h
    exact .inl ⟨rfl, h.2.2.1⟩
  · exact .inr rfl

theorem dispatch_cases (job : FileName) (exitCode : Nat) :
    (exitCode = codeSuccess ∧ config.dispatch job exitCode = .movingResponse job) ∨
      config.dispatch job exitCode = .deferring job exitCode ∨
      (exitCode = codeKilledByUs ∧ config.dispatch job exitCode = .killed job) ∨
      (exitCode ≠ codeSuccess ∧ exitCode ≠ codeKilledByUs ∧
        config.dispatch job exitCode = .movingDone job exitCode) := by
  unfold Config.dispatch
  split
  · rename_i h
    exact .inl ⟨h, rfl⟩
  · rename_i h
    split
    · exact .inr (.inl rfl)
    · split
      · rename_i hk
        exact .inr (.inr (.inl ⟨hk, rfl⟩))
      · rename_i hk
        exact .inr (.inr (.inr ⟨h, hk, rfl⟩))

section
variable (h : Held d localID c job)
  (htmp : exitCode = codeSuccess → TmpWritten p d localID c job)
  (hkilled : exitCode = codeKilledByUs → c.cancelled = true)
include h htmp hkilled

theorem mainOk_dispatch (hmain : c.main = config.dispatch job exitCode) :
    MainOk p d localID c := by
  unfold MainOk
  obtain ⟨hcode, hd⟩ | hd | ⟨hcode, hd⟩ | ⟨hcode, -, hd⟩ := dispatch_cases config job exitCode
  · rw [hmain, hd]
    exact ⟨h, htmp hcode⟩
  · rw [hmain, hd]
    exact h
  · rw [hmain, hd]
    exact ⟨h, hkilled hcode⟩
  · rw [hmain, hd]
    exact ⟨h, fun he => absurd he hcode⟩

theorem mainOk_afterRun (hmain : c.main = config.afterRun job retry exitCode) :
    MainOk p d localID c := by
  obtain ⟨hrun, -⟩ | hrun := afterRun_cases config job retry exitCode
  · unfold MainOk
    rw [hmain, hrun]
    exact h
  · exact mainOk_dispatch config h htmp hkilled (hmain.trans hrun)

end

theorem holdsMutex_dispatch (job : FileName) (exitCode : Nat) :
    (config.dispatch job exitCode).holdsMutex = false := by
  obtain ⟨-, hd⟩ | hd | ⟨-, hd⟩ | ⟨-, -, hd⟩ := dispatch_cases config job exitCode
  all_goals
    rw [hd]
    rfl

theorem holdsMutex_afterRun (job : FileName) (retry : Bool) (exitCode : Nat) :
    (config.afterRun job retry exitCode).holdsMutex = false := by
  obtain ⟨hrun, -⟩ | hrun := afterRun_cases config job retry exitCode
  · rw [hrun]
    rfl
  · rw [hrun, holdsMutex_dispatch]

theorem over_afterRun_killed (job : FileName) (retry : Bool) :
    (config.afterRun job retry codeKilledByUs).over = true := by
  obtain ⟨-, hne⟩ | hrun := afterRun_cases config job retry codeKilledByUs
  · exact absurd rfl hne
  · rw [hrun]
    obtain ⟨hcode, -⟩ | hd | ⟨-, hd⟩ | ⟨-, hne, -⟩ := dispatch_cases config job codeKilledByUs
    · cases hcode
    · rw [hd]
      rfl
    · rw [hd]
      rfl
    · exact absurd rfl hne

end

theorem MainOk.congr (h : MainOk p d localID c) (hmain : c'.main = c.main)
    (hactive : c'.activeJob = c.activeJob)
    (hcancelled : c.cancelled = true → c'.cancelled = true)
    (hspot : SpotKept c c')
    (hcaller : c.cancelledByCaller = true → c'.cancelledByCaller = true)
    (hfiles : ∀ file, Has d' localID file ↔ Has d localID file)
    (hresponse : ∀ r, d.Responded p r → d'.Responded p r)
    (hworker : c.main.over = false → c'.worker = c.worker ∧ c'.exitCode = c.exitCode ∧
      ∀ job, TmpWritten p d localID c job → TmpWritten p d' localID c' job) :
    MainOk p d' localID c' := by
  unfold MainOk at h ⊢
  rw [hmain]
  generalize c.main = m at h hworker ⊢
  cases m with
  | select | checkContext =>
    exact ⟨fun file hfile => hactive ▸ h.1 file ((hfiles file).mp hfile), fun hne =>
      hcancelled (h.2 (hactive ▸ hne))⟩
  | exiting =>
    exact ⟨fun file hfile => hactive ▸ h.1 file ((hfiles file).mp hfile), hcancelled h.2⟩
  | checkGracefulShutdown | checkSpotReclaim | listing | lockBest =>
    exact ⟨fun file hfile => h.1 file ((hfiles file).mp hfile), hactive.trans h.2⟩
  | locked job =>
    exact ⟨fun file hfile => h.1 file ((hfiles file).mp hfile), (hfiles job).mpr h.2.1,
      hactive.trans h.2.2⟩
  | starting job retry | deferring job exitCode =>
    exact h.congr hactive hspot hfiles
  | killed job =>
    exact ⟨h.1.congr hactive hspot hfiles, hcancelled h.2⟩
  | waiting job retry =>
    obtain ⟨hw, he, htmp⟩ := hworker rfl
    refine ⟨h.1.congr hactive hspot hfiles, fun exitCode hcode => ?_⟩
    obtain ⟨hnone, hkilled, hwritten⟩ := h.2 exitCode (he ▸ hcode)
    exact ⟨hw.trans hnone, hkilled, fun hsuccess => htmp job (hwritten hsuccess)⟩
  | movingResponse job =>
    obtain ⟨-, -, htmp⟩ := hworker rfl
    exact ⟨h.1.congr hactive hspot hfiles, htmp job h.2⟩
  | movingDone job exitCode =>
    exact ⟨h.1.congr hactive hspot hfiles, fun hsuccess =>
      (h.2 hsuccess).imp hspot (hresponse _)⟩
  | clearing =>
    exact fun file hfile => h file ((hfiles file).mp hfile)
  | requeueRemove job | requeueRename job =>
    exact ⟨fun file hfile => h.1 file ((hfiles file).mp hfile), hactive.trans h.2.1,
      hcancelled h.2.2⟩
  | returned =>
    exact ⟨fun file hfile => hactive ▸ h.1 file ((hfiles file).mp hfile), fun hne =>
      (h.2 (hactive ▸ hne)).imp hspot hcaller⟩

section
variable (h : Local p d localID c)
include h

theorem Local.move
    (hmain : MainOk p d' localID { c with main := m, activeJob := active, cancelled := k })
    (hwaiting : ∀ job retry, c.main ≠ .waiting job retry) (hmutex : c.handler.holdsMutex = true →
      active = c.activeJob ∧ m.holdsMutex = c.main.holdsMutex)
    (hover : c.main.over = true → c.cancelled = true → m.over = true)
    (hcancelled : k = c.cancelled) :
    Local p d' localID { c with main := m, activeJob := active, cancelled := k } := by
  subst hcancelled
  exact ⟨hmain, h.handler.congr rfl id id hmutex, h.worker.leave rfl id hwaiting hover, h.context⟩

theorem Local.goto (hm : c.main = m₀) (hmain : MainOk p d' localID { c with main := m })
    (hwaiting : ∀ job retry, m₀ ≠ .waiting job retry) (hmutex : m.holdsMutex = m₀.holdsMutex)
    (hover : m₀.over = true → m.over = true) : Local p d' localID { c with main := m } := by
  subst hm
  exact h.move hmain hwaiting (fun _ => ⟨rfl, hmutex⟩) (fun ho _ => hover ho) rfl

/-- The run of a worker is over: it exited, or it was killed. -/
theorem afterRun_ok {config : Config} {worker : Option Worker}
    (hm : c.main = .waiting job retry) (hheld : Held d localID c job)
    (htmp : exitCode = codeSuccess → TmpWritten p d localID c job)
    (hkilled : exitCode = codeKilledByUs → c.cancelled = true)
    (hworker : ∀ w ∈ worker, w.killed = true ∧ c.cancelled = true ∧
      (config.afterRun job retry exitCode).over = true) :
    Local p d localID { c with worker, main := config.afterRun job retry exitCode } := by
  refine ⟨mainOk_afterRun config (hheld.congr rfl id fun _ => Iff.rfl) htmp hkilled rfl, ?_,
    fun w hw => .inr (hworker w hw), h.context⟩
  exact h.handler.congr rfl id id fun _ => ⟨rfl, by rw [hm]; exact holdsMutex_afterRun ..⟩

theorem Local.handle (hc : c' = { c with
      handler := hd
      signalChan := signals
      spotReclaimDetected := spot
      gracefulShutdownRequested := graceful
      cancelled := k
      graceTimers := timers }) (hspot : SpotKept c c')
    (hcancelled : c.cancelled = true → c'.cancelled = true) (hhandler : HandlerOk c')
    (hcontext : ContextOk c') : Local p d localID c' := by
  subst hc
  refine ⟨h.main.congr rfl rfl hcancelled hspot id (fun _ => Iff.rfl) (fun _ => id) fun _ => ?_,
    hhandler, h.worker.congr rfl rfl hcancelled, hcontext⟩
  exact ⟨rfl, rfl, fun job htmp hp => (htmp hp).imp_right fun ht => ⟨hspot ht.1, ht.2⟩⟩

end

variable [DecidableEq I]

/-- What a step of a controller can do to the directories. -/
structure Effect (p : Prop) (localID : I) (d : Directories I) (c : Controller)
    (d' : Directories I) (c' : Controller) : Prop where
  files : d'.files = d.files ∨ ∃ old new, Files.rename d.files old new = some d'.files ∧
    new.request = old.request ∧
    (∀ file id, old = .inProgress file id ∨ new = .inProgress file id → id = localID) ∧
    ∀ r large, new = .done r large codeSuccess →
      c.spotReclaimDetected = true ∨ d.Responded p r
  tmpResponse : ∀ id ≠ localID, d'.tmpResponse id = d.tmpResponse id
  responses : ∀ r, d.Responded p r → d'.Responded p r
  spot : c.spotReclaimDetected = true → c'.spotReclaimDetected = true

theorem Effect.same (hspot : SpotKept c c') : Effect p localID d c d c' :=
  ⟨.inl rfl, fun _ _ => rfl, fun _ h => h, hspot⟩

theorem Effect.rename (hrequest : new.request = job.request)
    (hnew : ∀ file id, new ≠ .inProgress file id)
    (hdone : ∀ r large, new = .done r large codeSuccess →
      c.spotReclaimDetected = true ∨ d.Responded p r)
    (hspot : SpotKept c c') :
    Effect p localID d c (d.rename (.inProgress job localID) new) c' := by
  refine ⟨?_, fun _ _ => rfl, fun _ h => h, hspot⟩
  cases hrename : Files.rename d.files (.inProgress job localID) new with
  | none =>
    left
    simp [Directories.rename, hrename]
  | some files =>
    refine .inr ⟨.inProgress job localID, new, ?_, hrequest, ?_, hdone⟩
    · simp [Directories.rename, hrename]
    · rintro file id (h | h)
      · cases h
        rfl
      · exact absurd h (hnew file id)

theorem Effect.setTmpResponse (r : Option Request)
    (hspot : SpotKept c c') :
    Effect p localID d c (d.setTmpResponse localID name r) c' := by
  refine ⟨.inl rfl, fun id hid => ?_, fun _ h => h, hspot⟩
  simp [Directories.setTmpResponse, hid]

theorem has_rename (hnew : ∀ file id, new ≠ .inProgress file id) :
    Has (d.rename (.inProgress job localID) new) id file ↔
      Has d id file ∧ ¬ (file = job ∧ id = localID) := by
  unfold Has Directories.rename
  cases hrename : Files.rename d.files (.inProgress job localID) new with
  | none =>
    have hnot := Files.rename_eq_none.mp hrename
    refine ⟨fun h => ⟨h, ?_⟩, fun h => h.1⟩
    rintro ⟨rfl, rfl⟩
    exact hnot h
  | some files =>
    simp only [Option.getD_some]
    rw [(Files.rename_eq_some hrename).2]
    have hne : Path.inProgress file id ≠ new := fun h => hnew _ _ h.symm
    simp [hne]

-- The main loop

theorem Held.not_has_rename (h : Held d localID c job) (hnew : ∀ file id, new ≠ .inProgress file id)
    (file : FileName) : ¬ Has (d.rename (.inProgress job localID) new) localID file := by
  rw [has_rename hnew]
  exact fun hfile => hfile.2 ⟨h.only file hfile.1, rfl⟩

theorem moveResponse_ok (h : TmpWritten p d localID c job) :
    (d.moveResponse localID job).files = d.files ∧
      (c.spotReclaimDetected = true ∨ (d.moveResponse localID job).Responded p job.request) ∧
      ∀ c' : Controller, SpotKept c c' →
        Effect p localID d c (d.moveResponse localID job) c' := by
  unfold Directories.moveResponse
  cases htmp : d.tmpResponse localID job.request.job with
  | none =>
    refine ⟨rfl, ?_, fun _ hspot => .same hspot⟩
    by_cases hp : p
    · obtain hwritten | ⟨hspot, -⟩ := h hp
      · cases htmp.symm.trans hwritten
      · exact .inl hspot
    · exact .inr fun hp' => absurd hp' hp
  | some written =>
    have hwritten (hp : p) : written = job.request := by
      obtain hwritten | ⟨-, hnone⟩ := h hp
      · exact Option.some.inj (htmp.symm.trans hwritten)
      · cases htmp.symm.trans hnone
    refine ⟨rfl, .inr fun hp => ⟨written, by simp, by rw [hwritten hp]⟩, fun c' hspot => ?_⟩
    refine ⟨.inl rfl, fun id hid => by simp [Directories.setTmpResponse, hid], ?_, hspot⟩
    intro r hr hp
    obtain ⟨r', hr, hname⟩ := hr hp
    by_cases hfile : r.responseFile = job.request.responseFile
    · exact ⟨written, by simp [hfile], by rw [hwritten hp, hfile]⟩
    · exact ⟨r', by simpa [hfile, Directories.setTmpResponse] using hr, hname⟩

section
variable (h : Local p d localID c)
include h

theorem lock_ok (hm : c.main = .lockBest jobs)
    (hrename : Files.rename d.files (.queued job) (.inProgress job localID) = some files) :
    Local p { d with files } localID { c with main := .locked job } ∧
      Effect p localID d c { d with files } { c with main := .locked job } := by
  have hmain := h.main
  rw [MainOk, hm] at hmain
  have hmem := (Files.rename_eq_some hrename).2
  refine ⟨h.goto hm ⟨fun file hfile => ?_, (hmem _).mpr (.inl rfl), hmain.2⟩ nofun rfl nofun, ?_⟩
  · rcases (hmem _).mp hfile with heq | ⟨hfile, -⟩
    · cases heq
      rfl
    · exact absurd hfile (hmain.1 file)
  · refine ⟨.inr ⟨_, _, hrename, rfl, ?_, by simp⟩, fun _ _ => rfl, fun _ h => h, id⟩
    rintro file id (heq | heq)
    · cases heq
    · cases heq
      rfl

/-- A step of the main loop. -/
theorem main_ok (hs : mainStep config localID done d c = some (d', c')) :
    Local p d' localID c' ∧ Effect p localID d c d' c' := by
  have hmain := h.main
  unfold MainOk at hmain
  unfold mainStep at hs
  generalize hm : c.main = m at hs hmain
  cases m with
  | select =>
    dsimp only at hs
    split at hs
    · split at hs
      · rename_i hcancelled
        cases hs
        exact ⟨h.goto hm ⟨hmain.1, hcancelled⟩ nofun rfl (fun _ => rfl), .same id⟩
      · cases hs
    · cases hs
      exact ⟨h.goto hm hmain nofun rfl (fun _ => rfl), .same id⟩
  | checkContext =>
    dsimp only at hs
    split at hs
    · cases hs
      exact ⟨h.goto hm hmain nofun rfl (fun _ => rfl), .same id⟩
    · rename_i hcancelled
      cases hs
      have hnone : c.activeJob = none := by
        by_contra hne
        exact hcancelled (hmain.2 hne)
      refine ⟨h.move ⟨fun file hfile => ?_, hnone⟩ (by simp [hm])
        (fun _ => ⟨rfl, by rw [hm]; rfl⟩) (fun _ hc => absurd hc hcancelled) rfl, .same id⟩
      have := hmain.1 file hfile
      rw [hnone] at this
      cases this
  | checkGracefulShutdown | checkSpotReclaim =>
    dsimp only at hs
    split at hs
    · cases hs
      exact ⟨h.goto hm ⟨fun file hfile => absurd hfile (hmain.1 file),
        fun hne => absurd hmain.2 hne⟩ nofun rfl (fun _ => rfl), .same id⟩
    · cases hs
      exact ⟨h.goto hm hmain nofun rfl nofun, .same id⟩
  | listing jobToWatch jobs =>
    cases jobToWatch with
    | nil | cons name jobToWatch =>
      cases hs
      exact ⟨h.goto hm hmain nofun rfl nofun, .same id⟩
  | lockBest jobs =>
    cases jobs with
    | nil =>
      cases hs
      exact ⟨h.goto hm ⟨fun file hfile => absurd hfile (hmain.1 file),
        fun hne => absurd hmain.2 hne⟩ nofun rfl (fun _ => rfl), .same id⟩
    | cons job jobs =>
      dsimp only at hs
      split at hs
      · rename_i files hrename
        cases hs
        exact lock_ok h hm hrename
      · cases hs
        exact ⟨h.goto hm hmain nofun rfl nofun, .same id⟩
  | locked job =>
    dsimp only at hs
    split at hs
    · cases hs
    · rename_i hmutex
      cases hs
      exact ⟨h.move ⟨hmain.1, .inl ⟨rfl, hmain.2.1⟩⟩ (by simp [hm])
        (fun hh => absurd hh hmutex) (by simp [hm, Main.over]) rfl, .same id⟩
  | starting job retry =>
    cases hs
    refine ⟨⟨⟨hmain.congr rfl id fun _ => Iff.rfl, by simp⟩, ?_, ?_, h.context⟩, .same id⟩
    · exact h.handler.congr rfl id id fun _ => ⟨rfl, by rw [hm]; rfl⟩
    · intro w hw
      cases hw
      exact .inl ⟨rfl, retry, rfl⟩
  | waiting job retry =>
    dsimp only at hs
    obtain ⟨hheld, hexit⟩ := hmain
    split at hs
    · split at hs
      · rename_i hcancelled
        cases hs
        refine ⟨afterRun_ok h hm hheld (fun hcode => absurd hcode (by decide)) (fun _ => hcancelled)
          fun w hw => ?_, .same id⟩
        obtain ⟨w, -, rfl⟩ := Option.map_eq_some_iff.mp hw
        exact ⟨rfl, hcancelled, over_afterRun_killed ..⟩
      · cases hs
    · split at hs
      · rename_i exitCode hcode
        cases hs
        obtain ⟨hnone, hkilled, htmp⟩ := hexit exitCode hcode
        refine ⟨afterRun_ok h hm hheld htmp (fun hk => absurd hk hkilled) fun w hw => ?_, .same id⟩
        rw [Option.mem_def, hnone] at hw
        cases hw
      · cases hs
  | movingResponse job =>
    cases hs
    obtain ⟨hfiles, hresponse, heffect⟩ := moveResponse_ok hmain.2
    refine ⟨h.goto hm ⟨hmain.1.congr rfl id fun _ => by rw [Has, Has, hfiles], fun _ => hresponse⟩
      nofun rfl nofun, heffect _ id⟩
  | movingDone job exitCode =>
    cases hs
    refine ⟨h.goto hm (fun file => hmain.1.not_has_rename (by simp [doneFile]) file) nofun rfl
      nofun, ?_⟩
    refine .rename rfl (by simp [doneFile]) (fun r large hdone => ?_) id
    cases hdone
    exact hmain.2 rfl
  | deferring job exitCode =>
    cases hs
    exact ⟨h.goto hm (fun file => hmain.not_has_rename (by simp [deferToLargeFile]) file) nofun rfl
      (fun _ => rfl),
      .rename rfl (by simp [deferToLargeFile]) (by simp [deferToLargeFile]) id⟩
  | killed job =>
    cases hs
    exact ⟨h.goto hm ⟨fun file hfile => hmain.1.active_of_has hfile, fun _ => hmain.2⟩ nofun rfl
      (fun _ => rfl), .setTmpResponse none id⟩
  | clearing =>
    dsimp only at hs
    split at hs
    · cases hs
    · rename_i hmutex
      cases hs
      exact ⟨h.move ⟨fun file hfile => absurd hfile (hmain file), fun hne => absurd rfl hne⟩
        (by simp [hm]) (fun hh => absurd hh hmutex) (fun _ _ => rfl) rfl, .same id⟩
  | exiting =>
    dsimp only at hs
    split at hs
    · cases hs
    · rename_i hmutex
      split at hs
      · rename_i job hactive
        split at hs
        · cases hs
          refine ⟨h.move ⟨fun file hfile => ?_, hactive, hmain.2⟩ (by simp [hm])
            (fun hh => absurd hh hmutex) (fun _ _ => rfl) rfl, .same id⟩
          exact Option.some.inj ((hmain.1 file hfile).symm.trans hactive)
        · rename_i hnot
          cases hs
          refine ⟨h.move ⟨hmain.1, fun _ => ?_⟩ (by simp [hm]) (fun hh => absurd hh hmutex)
            (fun _ _ => rfl) hmain.2.symm, .same id⟩
          have := h.context.1 hmain.2
          tauto
      · rename_i hactive
        cases hs
        exact ⟨h.move ⟨hmain.1, fun hne => absurd hactive hne⟩ (by simp [hm])
          (fun hh => absurd hh hmutex) (fun _ _ => rfl) hmain.2.symm, .same id⟩
  | requeueRemove job =>
    cases hs
    exact ⟨h.goto hm hmain nofun rfl (fun _ => rfl), .setTmpResponse none id⟩
  | requeueRename job =>
    cases hs
    refine ⟨h.move ⟨fun file hfile => ?_, fun hne => absurd rfl hne⟩ (by simp [hm]) ?_
      (fun _ _ => rfl) hmain.2.2.symm, .rename rfl (by simp) (by simp) id⟩
    · obtain ⟨hfile, hne⟩ := (has_rename (by simp)).mp hfile
      exact absurd ⟨hmain.1 file hfile, rfl⟩ hne
    · -- both cannot have the mutex
      intro hh
      have := h.handler
      unfold HandlerOk at this
      cases hhandler : c.handler
      all_goals simp [hhandler, hm, Handler.holdsMutex, Main.holdsMutex] at this hh
  | returned =>
    cases hs

-- The handler and the worker

theorem Local.requeue (hspot : c.spotReclaimDetected = true) (hactive : c.activeJob = some job)
    (hmutex : c.main.holdsMutex = false) :
    Local p (d.rename (.inProgress job localID) (.queued job)) localID
      { c with activeJob := none, handler := .idle } := by
  refine ⟨?_, trivial, h.worker.congr rfl rfl id, h.context⟩
  have hmain := h.main
  have hhas {file : FileName} :
      Has (d.rename (.inProgress job localID) (.queued job)) localID file ↔
        Has d localID file ∧ file ≠ job := by
    rw [has_rename (by simp)]
    simp
  -- the file in progress is the active job, which is gone
  have hgone (hall : ∀ file, Has d localID file → c.activeJob = some file) (file : FileName) :
      ¬ Has (d.rename (.inProgress job localID) (.queued job)) localID file := by
    rw [hhas]
    rintro ⟨hfile, hne⟩
    exact hne (Option.some.inj ((hall file hfile).symm.trans hactive))
  have hheld {n : FileName} {c' : Controller} (hn : Held d localID c n)
      (hactive' : c'.activeJob = none)
      (hspot' : c'.spotReclaimDetected = c.spotReclaimDetected) :
      Held (d.rename (.inProgress job localID) (.queued job)) localID c' n := by
    have hnone := hgone fun file => hn.active_of_has
    exact ⟨fun file hfile => absurd hfile (hnone file), .inr ⟨hactive', hspot'.trans hspot, hnone⟩⟩
  unfold MainOk at hmain ⊢
  generalize c.main = m at hmain hmutex ⊢
  cases m with
  | select | checkContext | returned =>
    exact ⟨fun file hfile => absurd hfile (hgone hmain.1 file), fun hne => absurd rfl hne⟩
  | checkGracefulShutdown | checkSpotReclaim | listing | lockBest =>
    rw [hactive] at hmain
    cases hmain.2
  | locked n =>
    rw [hactive] at hmain
    cases hmain.2.2
  | starting n retry | deferring n exitCode =>
    exact hheld hmain rfl rfl
  | killed n | waiting n | movingResponse n | movingDone n =>
    exact ⟨hheld hmain.1 rfl rfl, hmain.2⟩
  | clearing =>
    exact fun file hfile => hmain file (hhas.mp hfile).1
  | exiting =>
    exact ⟨fun file hfile => absurd hfile (hgone hmain.1 file), hmain.2⟩
  | requeueRemove n | requeueRename n =>
    cases hmutex

theorem handler_ok (hs : handlerStep localID d c = some (d', c')) :
    Local p d' localID c' ∧ Effect p localID d c d' c' := by
  have hhandler := h.handler
  unfold HandlerOk at hhandler
  unfold handlerStep at hs
  generalize c.handler = hd at hs hhandler
  cases hd with
  | idle =>
    dsimp only at hs
    split at hs
    · cases hs
    all_goals
      cases hs
      exact ⟨h.handle rfl id id trivial h.context, .same id⟩
  | sigusr1 =>
    cases hs
    exact ⟨h.handle rfl (fun _ => rfl) id rfl ⟨fun _ => .inl rfl, h.context.2⟩, .same fun _ => rfl⟩
  | checkGracefulShutdown =>
    dsimp only at hs
    split at hs
    · cases hs
      exact ⟨h.handle rfl id id hhandler h.context, .same id⟩
    · cases hs
      refine ⟨h.handle rfl id (fun _ => rfl) hhandler ⟨fun _ => .inl hhandler, h.context.2⟩, ?_⟩
      exact .same id
  | lockForRequeue =>
    dsimp only at hs
    split at hs
    · cases hs
    · rename_i hmutex
      split at hs
      · rename_i job hactive
        cases hs
        have hmutex := Bool.eq_false_of_not_eq_true hmutex
        exact ⟨h.handle rfl id id ⟨hhandler, hactive, hmutex⟩ h.context, .same id⟩
      · cases hs
        exact ⟨h.handle rfl id id trivial h.context, .same id⟩
  | requeueRemove job =>
    cases hs
    refine ⟨⟨h.main.congr rfl rfl id id id (fun _ => Iff.rfl) (fun _ => id) fun _ =>
      ⟨rfl, rfl, fun n htmp => ?_⟩, hhandler, h.worker.congr rfl rfl id, h.context⟩,
      .setTmpResponse none id⟩
    by_cases hn : n.request.job = job.request.job
    · exact fun _ => .inr ⟨hhandler.1, by simp [Directories.setTmpResponse, hn]⟩
    · simpa [TmpWritten, Directories.setTmpResponse, hn] using htmp
  | requeueRename job =>
    cases hs
    exact ⟨h.requeue hhandler.1 hhandler.2.1 hhandler.2.2, .rename rfl (by simp) (by simp) id⟩
  | sigterm =>
    cases hs
    exact ⟨h.handle rfl id id rfl ⟨fun _ => .inr (.inl rfl), fun _ => rfl⟩, .same id⟩
  | lockForShutdown =>
    dsimp only at hs
    split at hs
    · cases hs
    · split at hs
      · cases hs
        exact ⟨h.handle rfl id id trivial ⟨h.context.1, fun _ => hhandler⟩, .same id⟩
      · cases hs
        exact ⟨h.handle rfl id (fun _ => rfl) trivial ⟨fun _ => .inr (.inl hhandler), h.context.2⟩,
          .same id⟩

theorem worker_ok (hcode : exitCode < 256) (hwrites : p → exitCode = codeSuccess → wrote = true)
    (hs : workerExits localID exitCode wrote d c = some (d', c')) :
    Local p d' localID c' ∧ Effect p localID d c d' c' := by
  cases hw : c.worker with
  | none => simp [workerExits, hw] at hs
  | some w =>
    simp only [workerExits, hw] at hs
    cases hs
    refine ⟨⟨?_, h.handler.congr rfl id id fun _ => ⟨rfl, rfl⟩, by simp [WorkerOk], h.context⟩, ?_⟩
    · obtain ⟨hkilled, retry, hm⟩ | ⟨hkilled, -, hover⟩ := h.worker w hw
      · have hmain := h.main
        simp only [MainOk, hm] at hmain ⊢
        refine ⟨hmain.1.congr rfl id fun _ => ?_, fun code hmem => ⟨trivial, ?_, ?_⟩⟩
        · split <;> rfl
        · simp only [hkilled, Bool.false_eq_true, if_false, Option.mem_some_iff] at hmem
          rw [codeKilledByUs]
          omega
        · simp only [hkilled, Bool.false_eq_true, if_false, Option.mem_some_iff] at hmem
          rintro rfl hp
          rw [if_pos (hwrites hp hmem)]
          exact .inl (by simp [Directories.setTmpResponse])
      · refine h.main.congr rfl rfl id id id (fun _ => ?_) (fun r hr => ?_) fun hnot => ?_
        · split <;> rfl
        · split <;> exact hr
        · rw [hover] at hnot
          cases hnot
    · split
      · exact .setTmpResponse _ id
      · exact .same id

theorem Local.notStarted (hm : c.main = .starting job retry)
    (hmain : Held d localID { c with main := m } job → MainOk p d localID { c with main := m })
    (hmutex : m.holdsMutex = false) :
    Local p d localID { c with main := m } ∧ Effect p localID d c d { c with main := m } := by
  have hheld := h.main
  simp only [MainOk, hm] at hheld
  exact ⟨h.goto hm (hmain (hheld.congr rfl id fun _ => Iff.rfl)) nofun hmutex nofun, .same id⟩

theorem start_ok (hs : startFails config c = some c' ∨ buildCmdFails config c = some c') :
    Local p d localID c' ∧ Effect p localID d c d c' := by
  rcases hs with hs | hs
  · unfold startFails at hs
    split at hs
    · rename_i job retry hm
      cases hs
      refine h.notStarted hm (fun hheld => mainOk_afterRun config hheld ?_ ?_ rfl)
        (holdsMutex_afterRun ..)
      all_goals exact fun hcode => absurd hcode (by decide)
    · cases hs
  · unfold buildCmdFails at hs
    split at hs
    · rename_i job retry hm
      cases hs
      refine h.notStarted hm (fun hheld => mainOk_dispatch config hheld ?_ ?_
        (rfl : config.dispatch job codeCantRunCommand = _)) (holdsMutex_dispatch ..)
      all_goals exact fun hcode => absurd hcode (by decide)
    · cases hs

end

theorem Local.frame (h : Local p d id c) (he : Effect p localID d c₁ d' c₂)
    (hid : id ≠ localID) : Local p d' id c := by
  refine ⟨h.main.congr rfl rfl (fun h => h) (fun h => h) (fun h => h) (fun file => ?_) he.responses
    fun _ => ⟨rfl, rfl, fun job htmp => ?_⟩, h.handler, h.worker, h.context⟩
  · obtain hfiles | ⟨old, new, hrename, -, howned, -⟩ := he.files
    · rw [Has, Has, hfiles]
    · rw [Has, Has, (Files.rename_eq_some hrename).2]
      have hnew : Path.inProgress file id ≠ new := fun heq => hid (howned file id (.inr heq.symm))
      have hold : Path.inProgress file id ≠ old := fun heq => hid (howned file id (.inl heq.symm))
      simp [hnew, hold]
  · unfold TmpWritten
    rw [he.tmpResponse id hid]
    exact htmp

end

end StatusNetwork.ProverController
