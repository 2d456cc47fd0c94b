import RenewalDrive.Domain.Managed
import RenewalDrive.Job.Record

/-!
# Phases of a job

Where a job is in its cycle of renewals, judged by its stored record and its domain.
-/

namespace RenewalDrive

inductive JobPhase where
  /-- No record was stored yet. -/
  | new
  /-- The configuration lacks something that a renewal needs. -/
  | blockedIncomplete
  /-- The credentials are fine until the renew window opens. -/
  | waitingForExpiry
  | renewing
  | finishedPendingActivation
  /-- New credentials are staged and were announced. -/
  | finishedNotified
deriving DecidableEq

namespace JobPhase

def classify (record : Option JobRecord) (domain : ManagedDomain) (now : Instant) : JobPhase :=
  match record with
  | none => if domain.state = .missingInformation then .blockedIncomplete else .new
  | some record =>
      if record.finished then
        if record.notified then .finishedNotified else .finishedPendingActivation
      else if domain.state = .missingInformation then .blockedIncomplete
      else if 0 < record.errorRuns ∨ record.lastStatus = .inProgress ∨ domain.shouldRenew now then
        .renewing
      else .waitingForExpiry

def name : JobPhase -> String
  | .new => "new"
  | .blockedIncomplete => "blocked-incomplete"
  | .waitingForExpiry => "waiting-for-expiry"
  | .renewing => "renewing"
  | .finishedPendingActivation => "finished-pending-activation"
  | .finishedNotified => "finished-notified"

def byName : List (String × JobPhase) :=
  [JobPhase.new, .blockedIncomplete, .waitingForExpiry, .renewing, .finishedPendingActivation,
    .finishedNotified].map fun phase => (phase.name, phase)

end JobPhase
end RenewalDrive
