import RenewalDrive.Domain.Registry
import RenewalDrive.Drive.Host
import RenewalDrive.Job.Basic

/-!
# Evaluations

An evaluation takes a job that is due through one step of its drive: it looks at the
domain as the store has it now, attempts a renewal where the policy asks for one, and
keeps what came out. A job that could not be saved stays marked, and a marked job is
never replaced by its record in the store.
-/

namespace RenewalDrive

/-! ## Decisions -/

inductive Course where
  /-- No domain has the name of the job. -/
  | unmanaged
  /-- The configuration of the domain lacks something. -/
  | blocked
  /-- New credentials are staged and wait for their activation. -/
  | finished
  | renew (domain : ManagedDomain)
  /-- The credentials in use are fine. -/
  | rest (domain : ManagedDomain)

structure Findings where
  job : DriveJob
  nextRun : Option Instant
  status : DriveStatus
  message : Option String

namespace DriveJob

def course (job : DriveJob) (domain : Option ManagedDomain) (now : Instant) : Course :=
  match domain with
  | none => .unmanaged
  | some domain =>
      if domain.state = .missingInformation then .blocked
      else if job.finished then .finished
      else if domain.shouldRenew now then .renew domain
      else .rest domain

def keeping (job : DriveJob) (nextRun : Option Instant) : Findings :=
  ⟨job, nextRun, job.lastStatus, job.lastMessage⟩

def blocked (job : DriveJob) : Findings :=
  ⟨{ job with errorRuns := job.errorRuns + 1, dirty := true }, none, .incomplete,
    job.lastMessage⟩

/-- The time of the staged credentials, if it lies ahead. -/
def activation (job : DriveJob) (now : Instant) : Option Instant :=
  job.validFrom.filter fun validFrom => now < validFrom

def attempted (job : DriveJob) : DriveJob :=
  { job with resetStaging := false, dirty := true }

def completed (job : DriveJob) (message : Option String) (validFrom now : Instant) : Findings :=
  ⟨{ job with finished := true, notified := false, validFrom := some validFrom, errorRuns := 0 },
    if now < validFrom then some validFrom else none, .ok, message⟩

def failedOnce (job : DriveJob) : DriveJob :=
  { job with errorRuns := job.errorRuns + 1 }

/-- The job with its findings recorded; it is marked if that changed anything. -/
def recorded (findings : Findings) : DriveJob :=
  let job := findings.job
  { job with
    nextRun := findings.nextRun
    lastStatus := findings.status
    lastMessage := findings.message
    dirty := job.dirty || findings.nextRun ≠ job.nextRun || findings.status ≠ job.lastStatus ||
      findings.message ≠ job.lastMessage }

end DriveJob

inductive Evaluation where
  | notDue
  | evaluated (status : DriveStatus)
deriving DecidableEq

namespace Host

variable {σ : Type} (host : Host σ)

/-! ## Store -/

/-- The job as the store has it, unless it was changed since. -/
def reload (job : DriveJob) : Act σ DriveJob := do
  if job.dirty then
    host.note (.keptUnsaved job.name)
    return job
  else
    match ← host.loadJob job.name with
    | .ok (some record) => return job.apply record
    | .ok none => return job
    | .error error =>
        host.note (.loadFailed job.name error)
        return job

/-- Saves a job; it stays marked if the store refuses. -/
def save (job : DriveJob) : Act σ DriveJob := do
  match ← host.saveJob job.name job.toRecord with
  | .ok () =>
      host.note (.saved job.name)
      return { job with dirty := false }
  | .error error =>
      host.note (.saveFailed job.name error)
      return job

def currentDomain (domain : ManagedDomain) (now : Instant) : Act σ ManagedDomain := do
  match ← host.loadCredential domain.name with
  | .ok (some credential) => return domain.install credential now
  | .ok none => return domain
  | .error error =>
      host.note (.credentialFailed domain.name error)
      return domain

/-- Ends the drive of a job whose staged credentials are active. -/
def beginGeneration (job : DriveJob) : Act σ DriveJob := do
  host.note (.generationBegun job.name)
  match ← host.purge .staging job.name with
  | .ok () => pure ()
  | .error error => host.note (.stagingPurgeFailed job.name error)
  return job.nextGeneration

/-! ## Attempts -/

def afterAttempt (job : DriveJob) (outcome : RenewOutcome) (now : Instant) : Act σ Findings := do
  if outcome.isComplete then
    let now ← host.now
    let validFrom := outcome.validFrom.getD now
    host.note (.renewed job.name validFrom now)
    return job.completed outcome.message validFrom now
  else
    host.note (.attemptFailed job.name outcome.driveStatus outcome.message)
    host.count job.errorRuns
    let job := job.failedOnce
    let delay := Backoff.delay job.errorRuns
    let nextRun ← Act.instant (now.add? delay)
    host.note (.backingOff job.name job.errorRuns delay)
    return ⟨job, some nextRun, outcome.driveStatus, outcome.message⟩

def renew (job : DriveJob) (domain : ManagedDomain) (now : Instant) : Act σ Findings := do
  host.note (.driving job.name domain.state)
  let outcome ← host.attempt domain job.resetStaging
  host.afterAttempt job.attempted outcome now

def pursue (job : DriveJob) (now : Instant) : Course -> Act σ Findings
  | .unmanaged => do
      host.note (.unmanagedJob job.name)
      return job.keeping none
  | .blocked => do
      host.count job.errorRuns
      host.note (.informationMissing job.name job.blocked.job.errorRuns)
      return job.blocked
  | .finished => return job.keeping (job.activation now)
  | .renew domain => host.renew job domain now
  | .rest domain => do
      match domain.expires with
      | none => pure ()
      | some expires => host.note (.nothingToRenew job.name expires)
      return job.keeping none

/-! ## Evaluations -/

def evaluateDue (registry : Registry) (job : DriveJob) (now : Instant) : Act σ DriveJob := do
  let domain ← (registry.get? job.name).mapM fun domain => host.currentDomain domain now
  let job ←
    if domain.any fun domain => job.isActivated domain.credential then host.beginGeneration job
    else pure job
  let job := .recorded (← host.pursue job now (job.course domain now))
  if job.dirty then host.save job else return job

/-- Evaluates a job if it is due after a reload. -/
def evaluate (registry : Registry) (job : DriveJob) : Act σ (Evaluation × DriveJob) := do
  let job ← host.reload job
  let now ← host.now
  if job.isDue now then
    let job ← host.evaluateDue registry job now
    return (.evaluated job.lastStatus, job)
  else
    return (.notDue, job)

end Host
end RenewalDrive
