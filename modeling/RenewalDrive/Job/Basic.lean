import RenewalDrive.Domain.Credential
import RenewalDrive.Job.Record

/-!
# Drive jobs

The job of one domain as a process holds it in memory. Beside the fields of its
record it knows whether the record in the store is out of date, and whether the
next attempt has to start over.
-/

namespace RenewalDrive

structure DriveJob where
  /-- The name of the domain, which never changes. -/
  name : String
  /-- The earliest next evaluation; without one the job is always due. -/
  nextRun : Option Instant := none
  lastStatus : DriveStatus := .ok
  lastMessage : Option String := none
  /-- A complete set of credentials is staged. -/
  finished : Bool := false
  /-- When the staged credentials become valid. -/
  validFrom : Option Instant := none
  /-- The number of consecutive attempts that did not complete. -/
  errorRuns : ErrorCount := 0
  /-- The staged credentials were announced. -/
  notified : Bool := false
  /-- The job was changed since it was saved or loaded. -/
  dirty : Bool := false
  /-- The next attempt has to discard what is staged. -/
  resetStaging : Bool := false
deriving DecidableEq

namespace DriveJob

def fresh (name : String) : DriveJob :=
  { name := name }

/-- The job with everything but its name and its reset mark taken from a record. -/
def apply (job : DriveJob) (record : JobRecord) : DriveJob :=
  { job with
    nextRun := record.nextRun
    lastStatus := record.lastStatus
    lastMessage := record.lastMessage
    finished := record.finished
    validFrom := record.validFrom
    errorRuns := record.errorRuns
    notified := record.notified
    dirty := false }

def toRecord (job : DriveJob) : JobRecord where
  name := job.name
  finished := job.finished
  notified := job.notified
  nextRun := job.nextRun
  validFrom := job.validFrom
  errorRuns := job.errorRuns
  lastStatus := job.lastStatus
  lastMessage := job.lastMessage

def isDue (job : DriveJob) (now : Instant) : Bool :=
  job.nextRun.all fun t => t ≤ now

/-- The staged credentials, or newer ones, are installed. Without a known beginning
of validity any installed credentials count. -/
def isActivated (job : DriveJob) (installed : Option Credential) : Bool :=
  job.finished &&
    installed.any fun credential => job.validFrom.all fun staged => staged ≤ credential.validFrom

def isReady (job : DriveJob) (now : Instant) : Bool :=
  job.finished && !job.notified && job.validFrom.all fun t => t ≤ now

/-- The job without its finished drive; the next attempt has to start over. -/
def nextGeneration (job : DriveJob) : DriveJob :=
  { job with
    finished := false
    notified := false
    validFrom := none
    errorRuns := 0
    resetStaging := true
    dirty := true }

end DriveJob

/-! ## Backoff -/

namespace Backoff

def baseSeconds : Nat := 5

def limitSeconds : Nat := 3600

def doublingsLimit : Nat := 20

/-- The pause in seconds after a number of consecutive failures: it doubles with
each of them up to the longest pause. -/
def seconds (errorRuns : Nat) : Nat :=
  min (baseSeconds * Nat.pow 2 (min (errorRuns - 1) doublingsLimit)) limitSeconds

def delay (errorRuns : Nat) : Span :=
  .ofSeconds (seconds errorRuns)

end Backoff
end RenewalDrive
