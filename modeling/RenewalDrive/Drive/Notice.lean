import RenewalDrive.Drive.Host
import RenewalDrive.Job.Basic
import RenewalDrive.Text.Blank

/-!
# Announcements

A pass over the jobs announces those whose staged credentials became valid: the
notify command runs once for all of them, and each is marked so that it is announced
once. A command that cannot be run leaves them for the next pass; its exit code does
not matter.
-/

namespace RenewalDrive

structure NoticeReport where
  /-- The names of the jobs that were ready, in order. -/
  ready : List String
  /-- The ready jobs were marked as announced. -/
  delivered : Bool
deriving DecidableEq

namespace DriveJob

def readyNames (jobs : List DriveJob) (now : Instant) : List String :=
  (jobs.filter fun job => job.isReady now).map (·.name)

end DriveJob

/-- The text of a command without surrounding blanks, if anything is left of it. -/
def effectiveCommand (command : Option String) : Option String :=
  (command.map Text.trimmed).filter fun text => text ≠ ""

namespace Host

variable {σ : Type} (host : Host σ)

/-- Runs the notify command with the names; tells whether nothing prevented it. -/
def deliver (command : Option String) (names : List String) : Act σ Bool := do
  match effectiveCommand command with
  | none => return true
  | some command =>
      match ← host.execute (Text.words command ++ names) with
      | .ok exitCode =>
          host.note (.notifyReturned command exitCode)
          return true
      | .error _ =>
          host.note (.notifyFailed command names)
          return false

def markNotified (now : Instant) (job : DriveJob) : Act σ DriveJob := do
  if job.isReady now then
    let job := { job with notified := true }
    match ← host.saveJob job.name job.toRecord with
    | .ok () => return job
    | .error error =>
        host.note (.saveFailed job.name error)
        return { job with dirty := true }
  else
    return job

def notifyReady (command : Option String) (now : Instant) (jobs : List DriveJob) :
    Act σ (NoticeReport × List DriveJob) := do
  match DriveJob.readyNames jobs now with
  | [] => return (⟨[], false⟩, jobs)
  | names =>
      let delivered ← host.deliver command names
      let jobs ← if delivered then jobs.mapM (host.markNotified now) else pure jobs
      host.note (.announced names)
      return (⟨names, delivered⟩, jobs)

end Host
end RenewalDrive
