import Mathlib.Data.List.Sort
import StatusNetwork.Base.Files

/-!
# The prover controller

Models `runController` of `controller.go`, with the file watcher (`fs_watcher.go`), the executor
(`executor.go`) and the jobs (`jobs.go`, `job_definition.go`). A controller is a main loop and a
signal handler that share the active job, two flags and the context. Every read or write of them
and every file operation is a step of its own, and so is what happens around the controllers: new
requests, signals, the end of a grace period and the end of a worker.

A request file keeps the name of its request, whatever is appended to it.
-/

namespace StatusNetwork.ProverController

-- Files

inductive JobName
  | execution
  | compression
  | aggregation
  deriving DecidableEq

def JobName.priority : JobName → Nat
  | .execution => 0
  | .compression => 1
  | .aggregation => 2

structure Request where
  job : JobName
  start : Nat
  stop : Nat
  versions : String
  contentHash : String
  deriving DecidableEq

/-- `.large` and `.failure.code_x` may be appended to the name, any number of times. -/
structure FileName where
  request : Request
  large : Nat
  failures : List Nat
  deriving DecidableEq

/-- Where a request file can be, in the directory of its job. The local ID of a controller is
appended to what it has locked. -/
inductive Path (I : Type)
  | queued (file : FileName)
  | inProgress (file : FileName) (localID : I)
  /-- The failures before are removed from the name; the exit code 0 stands for the suffix
  `success`. -/
  | done (request : Request) (large : Nat) (exitCode : Nat)
  deriving DecidableEq

def Path.request : Path I → Request
  | .queued file => file.request
  | .inProgress file _ => file.request
  | .done request _ _ => request

/-- The name of the response file. -/
structure ResponseFile where
  job : JobName
  start : Nat
  stop : Nat
  contentHash : String
  deriving DecidableEq

def Request.responseFile (r : Request) : ResponseFile := ⟨r.job, r.start, r.stop, r.contentHash⟩

def FileName.score (file : FileName) : Nat := 100 * file.request.stop + file.request.job.priority

structure Config where
  jobToWatch : List JobName
  canRunFullLarge : Bool
  deferToOtherLargeCodes : List Nat
  retryLocallyWithLargeCodes : List Nat
  deriving DecidableEq

def Config.inputFileRegexp (config : Config) (job : JobName) (file : FileName) : Bool :=
  file.request.job = job ∧
    file.large = if job = .execution ∧ config.canRunFullLarge then 1 else 0

def doneFile (file : FileName) (exitCode : Nat) : Path I := .done file.request file.large exitCode

def deferToLargeFile (file : FileName) (exitCode : Nat) : Path I :=
  .queued ⟨file.request, file.large + 1, [exitCode]⟩

def codeSuccess : Nat := 0
def codeFatal : Nat := 14
def codeCantRunCommand : Nat := 15
def codeKilledByUs : Nat := 1137

-- State

inductive Signal
  | sigusr1
  | sigterm
  deriving DecidableEq

inductive Main
  | select
  | checkContext
  | checkGracefulShutdown
  | checkSpotReclaim
  | listing (jobToWatch : List JobName) (jobs : List FileName)
  | lockBest (jobs : List FileName)
  | locked (job : FileName)
  | starting (job : FileName) (retry : Bool)
  | waiting (job : FileName) (retry : Bool)
  | movingResponse (job : FileName)
  | movingDone (job : FileName) (exitCode : Nat)
  | deferring (job : FileName) (exitCode : Nat)
  | killed (job : FileName)
  | clearing
  | exiting
  | requeueRemove (job : FileName)
  | requeueRename (job : FileName)
  | returned
  deriving DecidableEq

inductive Handler
  | idle
  | sigusr1
  | checkGracefulShutdown
  | lockForRequeue
  | requeueRemove (job : FileName)
  | requeueRename (job : FileName)
  | sigterm
  | lockForShutdown
  deriving DecidableEq

structure Worker where
  job : FileName
  /-- It was sent the signal to terminate, and nobody waits for it. -/
  killed : Bool
  deriving DecidableEq

structure Controller where
  main : Main := .select
  handler : Handler := .idle
  signalChan : List Signal := []
  activeJob : Option FileName := none
  spotReclaimDetected : Bool := false
  gracefulShutdownRequested : Bool := false
  cancelled : Bool := false
  /-- by the caller of the controller -/
  cancelledByCaller : Bool := false
  graceTimers : Nat := 0
  worker : Option Worker := none
  exitCode : Option Nat := none
  deriving DecidableEq

/-- The files of the shared directories: the requests, for each controller and job the temporary
response file with the request it was written for, and the responses. -/
structure Directories (I : Type) where
  files : List (Path I)
  tmpResponse : I → JobName → Option Request
  responses : ResponseFile → Option Request

structure State (I : Type) where
  dirs : Directories I
  controllers : I → Controller
  requests : List Request

def State.init : State I where
  dirs := ⟨[], fun _ _ => none, fun _ => none⟩
  controllers _ := {}
  requests := []

section
variable {I : Type} [DecidableEq I]

namespace Directories

variable (d : Directories I)

/-- A renaming that fails is only logged. -/
def rename (old new : Path I) : Directories I :=
  { d with files := (Files.rename d.files old new).getD d.files }

def setTmpResponse (localID : I) (job : JobName) (r : Option Request) : Directories I :=
  { d with
    tmpResponse :=
      Function.update d.tmpResponse localID (Function.update (d.tmpResponse localID) job r) }

/-- The temporary response file becomes the response file. If that fails, there is none to
remove. -/
def moveResponse (localID : I) (job : FileName) : Directories I :=
  match d.tmpResponse localID job.request.job with
  | some r =>
    { d.setTmpResponse localID job.request.job none with
      responses := Function.update d.responses job.request.responseFile (some r) }
  | none => d

end Directories

-- The main loop

/-- What is done with a job whose worker ended with a code. -/
def Config.dispatch (config : Config) (job : FileName) (exitCode : Nat) : Main :=
  if exitCode = codeSuccess then .movingResponse job
  else if job.request.job = .execution ∧ exitCode ∈ config.deferToOtherLargeCodes then
    .deferring job exitCode
  else if exitCode = codeKilledByUs then .killed job
  else .movingDone job exitCode

/-- The end of a run of the command: only execution jobs are run again, and only once. -/
def Config.afterRun (config : Config) (job : FileName) (retry : Bool) (exitCode : Nat) : Main :=
  if job.request.job = .execution ∧ exitCode ≠ codeSuccess ∧ exitCode ≠ codeKilledByUs ∧ ¬ retry ∧
      exitCode ∈ config.retryLocallyWithLargeCodes then .starting job true
  else config.dispatch job exitCode

def Main.holdsMutex : Main → Bool
  | .requeueRemove _ | .requeueRename _ => true
  | _ => false

def Handler.holdsMutex : Handler → Bool
  | .requeueRemove _ | .requeueRename _ => true
  | _ => false

/-- The files of a job that a controller finds in the queue. -/
def Config.appendJobFromDef (config : Config) (files : List (Path I)) (job : JobName) :
    List FileName :=
  files.filterMap fun
    | .queued file => if config.inputFileRegexp job file then some file else none
    | _ => none

/-- A step of the main loop. Where a select statement can take either case, `done` says whether it
takes the one of the context. -/
def mainStep (config : Config) (localID : I) (done : Bool) (d : Directories I) (c : Controller) :
    Option (Directories I × Controller) :=
  match c.main with
  | .select =>
    if done then
      if c.cancelled then some (d, { c with main := .exiting }) else none
    else some (d, { c with main := .checkContext })
  | .checkContext =>
    if c.cancelled then some (d, { c with main := .select })
    else some (d, { c with main := .checkGracefulShutdown })
  | .checkGracefulShutdown =>
    if c.gracefulShutdownRequested then some (d, { c with main := .select })
    else some (d, { c with main := .checkSpotReclaim })
  | .checkSpotReclaim =>
    if c.spotReclaimDetected then some (d, { c with main := .select })
    else some (d, { c with main := .listing config.jobToWatch [] })
  | .listing (job :: jobToWatch) jobs =>
    some (d, { c with main := .listing jobToWatch (jobs ++ config.appendJobFromDef d.files job) })
  | .listing [] jobs =>
    some (d, { c with main := .lockBest (jobs.insertionSort fun a b => a.score ≤ b.score) })
  | .lockBest [] => some (d, { c with main := .select })
  | .lockBest (job :: jobs) =>
    match Files.rename d.files (.queued job) (.inProgress job localID) with
    | some files => some ({ d with files }, { c with main := .locked job })
    | none => some (d, { c with main := .lockBest jobs })
  | .locked job =>
    if c.handler.holdsMutex then none
    else some (d, { c with activeJob := some job, main := .starting job false })
  | .starting job retry =>
    some (d, { c with worker := some ⟨job, false⟩, exitCode := none, main := .waiting job retry })
  | .waiting job retry =>
    if done then
      if c.cancelled then
        some (d, { c with
          worker := c.worker.map fun w => { w with killed := true }
          main := config.afterRun job retry codeKilledByUs })
      else none
    else
      match c.exitCode with
      | some exitCode => some (d, { c with main := config.afterRun job retry exitCode })
      | none => none
  | .movingResponse job =>
    some (d.moveResponse localID job, { c with main := .movingDone job codeSuccess })
  | .movingDone job exitCode =>
    some (d.rename (.inProgress job localID) (doneFile job exitCode), { c with main := .clearing })
  | .deferring job exitCode =>
    some (d.rename (.inProgress job localID) (deferToLargeFile job exitCode),
      { c with main := .clearing })
  | .killed job =>
    some (d.setTmpResponse localID job.request.job none, { c with main := .select })
  | .clearing =>
    if c.handler.holdsMutex then none
    else some (d, { c with activeJob := none, main := .select })
  | .exiting =>
    if c.handler.holdsMutex then none
    else
      match c.activeJob with
      | some job =>
        if ¬ c.spotReclaimDetected ∧ c.gracefulShutdownRequested then
          some (d, { c with main := .requeueRemove job })
        else some (d, { c with main := .returned, cancelled := true })
      | none => some (d, { c with main := .returned, cancelled := true })
  | .requeueRemove job =>
    some (d.setTmpResponse localID job.request.job none, { c with main := .requeueRename job })
  | .requeueRename job =>
    some (d.rename (.inProgress job localID) (.queued job),
      { c with activeJob := none, main := .returned, cancelled := true })
  | .returned => none

def buildCmdFails (config : Config) (c : Controller) : Option Controller :=
  match c.main with
  | .starting job _ => some { c with main := config.dispatch job codeCantRunCommand }
  | _ => none

def startFails (config : Config) (c : Controller) : Option Controller :=
  match c.main with
  | .starting job retry => some { c with main := config.afterRun job retry codeFatal }
  | _ => none

-- The signal handler

def handlerStep (localID : I) (d : Directories I) (c : Controller) :
    Option (Directories I × Controller) :=
  match c.handler with
  | .idle =>
    match c.signalChan with
    | [] => none
    | .sigusr1 :: signals => some (d, { c with signalChan := signals, handler := .sigusr1 })
    | .sigterm :: signals => some (d, { c with signalChan := signals, handler := .sigterm })
  | .sigusr1 =>
    some (d, { c with spotReclaimDetected := true, handler := .checkGracefulShutdown })
  | .checkGracefulShutdown =>
    if c.gracefulShutdownRequested then some (d, { c with handler := .lockForRequeue })
    else some (d, { c with cancelled := true, handler := .lockForRequeue })
  | .lockForRequeue =>
    if c.main.holdsMutex then none
    else
      match c.activeJob with
      | some job => some (d, { c with handler := .requeueRemove job })
      | none => some (d, { c with handler := .idle })
  | .requeueRemove job =>
    some (d.setTmpResponse localID job.request.job none, { c with handler := .requeueRename job })
  | .requeueRename job =>
    some (d.rename (.inProgress job localID) (.queued job),
      { c with activeJob := none, handler := .idle })
  | .sigterm =>
    some (d, { c with gracefulShutdownRequested := true, handler := .lockForShutdown })
  | .lockForShutdown =>
    if c.main.holdsMutex then none
    else
      match c.activeJob with
      | some _ => some (d, { c with graceTimers := c.graceTimers + 1, handler := .idle })
      | none => some (d, { c with cancelled := true, handler := .idle })

/-- The worker may have written the temporary response file, whatever its exit code. -/
def workerExits (localID : I) (exitCode : Nat) (wrote : Bool) (d : Directories I)
    (c : Controller) : Option (Directories I × Controller) :=
  match c.worker with
  | none => none
  | some worker =>
    some (
      if wrote then
        d.setTmpResponse localID worker.job.request.job (some worker.job.request)
      else d,
      { c with worker := none, exitCode := if worker.killed then none else some exitCode })

-- All controllers

inductive Action (I : Type)
  | submit (file : FileName)
  | signal (localID : I) (signal : Signal)
  | cancelByCaller (localID : I)
  | graceTimer (localID : I)
  | main (localID : I) (done : Bool)
  | buildCmdFails (localID : I)
  | startFails (localID : I)
  | handler (localID : I)
  | workerExits (localID : I) (exitCode : Nat) (wrote : Bool)
  deriving DecidableEq

/-- What a party of a controller does. -/
def State.act (s : State I) (localID : I)
    (f : Directories I → Controller → Option (Directories I × Controller)) : Option (State I) :=
  (f s.dirs (s.controllers localID)).map fun r =>
    { s with dirs := r.1, controllers := Function.update s.controllers localID r.2 }

def step (config : I → Config) (s : State I) : Action I → Option (State I)
  | .submit file =>
    if file.request ∈ s.requests then none
    else some { s with
      dirs := { s.dirs with files := .queued file :: s.dirs.files }
      requests := file.request :: s.requests }
  | .signal localID signal => s.act localID fun d c =>
    -- the channel has room for two signals, and the others are dropped
    if c.main = .returned ∨ 2 ≤ c.signalChan.length then some (d, c)
    else some (d, { c with signalChan := c.signalChan ++ [signal] })
  | .cancelByCaller localID => s.act localID fun d c =>
    some (d, { c with cancelled := true, cancelledByCaller := true })
  | .graceTimer localID => s.act localID fun d c =>
    if c.graceTimers = 0 then none
    else some (d, { c with graceTimers := c.graceTimers - 1, cancelled := true })
  | .main localID done => s.act localID (mainStep (config localID) localID done)
  | .buildCmdFails localID => s.act localID fun d c =>
    (buildCmdFails (config localID) c).map (d, ·)
  | .startFails localID => s.act localID fun d c =>
    (startFails (config localID) c).map (d, ·)
  | .handler localID => s.act localID (handlerStep localID)
  | .workerExits localID exitCode wrote =>
    -- an exit status, or 128 and the number of a signal
    if exitCode < 256 then s.act localID (workerExits localID exitCode wrote) else none

end

end StatusNetwork.ProverController
