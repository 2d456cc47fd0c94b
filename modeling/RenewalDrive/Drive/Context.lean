import RenewalDrive.Drive.Evaluate
import RenewalDrive.Drive.Notice
import RenewalDrive.Drive.Watchdog

/-!
# Drive contexts

A context holds the jobs of all watched domains for as long as one process drives
them. `Host.start` builds it, `Host.runJobs` evaluates the jobs that are due and says
how long to wait, and `Host.tick` answers one call of a watchdog.
-/

namespace RenewalDrive

/-! ## Settings -/

def defaultCadence : Span :=
  .ofSeconds 86400

structure DriveSettings where
  /-- The command that is told about credentials that became valid. -/
  notifyCommand : Option String := none
  /-- The time between two full checks; a check is made twice as often. -/
  cadence : Span := defaultCadence

structure DriveContext where
  registry : Registry
  settings : DriveSettings
  jobs : List DriveJob

/-- The instant to wake up at: the earliest that a job asks for, or the given one. -/
def nextWake (jobs : List DriveJob) (latest : Instant) : Instant :=
  (jobs.filterMap (·.nextRun)).foldl Instant.earlier latest

namespace Host

variable {σ : Type} (host : Host σ)

/-! ## Starts -/

def purgeNoting (name : String) (group : Group) : Act σ Unit := do
  match ← host.purge group name with
  | .ok () => pure ()
  | .error error => host.note (.purgeFailed name group error)

/-- The job of a watched name. A record with errors is dropped together with what the
drive had made so far: a new process may get past whatever stopped the last one. -/
def startJob (name : String) : Act σ DriveJob := do
  host.note (.jobCreated name)
  let job ← host.reload (.fresh name)
  if 0 < job.errorRuns then
    host.note (.recovering name job.errorRuns)
    host.purgeNoting name .staging
    host.purgeNoting name .challenges
    host.save { DriveJob.fresh name with resetStaging := true }
  else
    return job

def purgeStale (name : String) : Act σ Unit := do
  match ← host.purge .challenges name with
  | .ok () => host.note (.stalePurged name)
  | .error error => host.note (.stalePurgeFailed name error)

def purgeStaleChallenges (registry : Registry) : Act σ Unit := do
  match ← host.listNames .challenges with
  | .error error => host.note (.challengesUnlisted error)
  | .ok names => (names.filter fun name => !registry.contains name).forM host.purgeStale

/-- Builds a context; without a watched domain there is none. -/
def start (registry : Registry) (settings : DriveSettings) : Act σ (Option DriveContext) := do
  let jobs ← registry.watchedNames.mapM host.startJob
  host.purgeStaleChallenges registry
  if jobs.isEmpty then
    host.note .nothingToDrive
    return none
  else
    return some ⟨registry, settings, jobs⟩

/-! ## Ticks -/

/-- Evaluates a job if it is due before a reload. -/
def runJob (registry : Registry) (job : DriveJob) : Act σ DriveJob := do
  let now ← host.now
  if job.isDue now then
    return (← host.evaluate registry job).2
  else
    return job

/-- Evaluates the jobs that are due; answers the time to wait until the next tick. -/
def runJobs (context : DriveContext) : Act σ (Span × DriveContext) := do
  let started ← host.now
  let latest := (started.add? context.settings.cadence.half).getD Instant.latest
  let jobs ← context.jobs.mapM (host.runJob context.registry)
  let now ← host.now
  let wait := ((nextWake jobs latest).since now).wait
  host.note (.nextTick wait)
  return (wait, { context with jobs := jobs })

def notifyContext (context : DriveContext) : Act σ (NoticeReport × DriveContext) := do
  let now ← host.now
  let (report, jobs) ← host.notifyReady context.settings.notifyCommand now context.jobs
  return (report, { context with jobs := jobs })

/-- Answers a call of a watchdog. A regular call evaluates the jobs and answers the
interval until the next one; every call ends with a pass of announcements. -/
def tick (context : DriveContext) (state : WatchState) : Act σ (Option Span × DriveContext) := do
  let (interval, context) ←
    match state with
    | .starting => do
        host.note (.watchdogStarted context.jobs.length)
        pure (none, context)
    | .running => do
        host.note (.watchdogTick context.jobs.length)
        let (wait, context) ← host.runJobs context
        pure (some wait, context)
    | .stopping => do
        host.note .watchdogStopping
        pure (none, context)
  let (_, context) ← host.notifyContext context
  return (interval, context)

/-! ## Resets -/

def resetDomain (name : String) : Act σ (Except StoreError Unit) := do
  match ← host.purge .staging name with
  | .error error => return .error error
  | .ok () =>
      match ← host.purge .challenges name with
      | .error error => return .error error
      | .ok () =>
          host.note (.driveReset name)
          return .ok ()

end Host
end RenewalDrive
