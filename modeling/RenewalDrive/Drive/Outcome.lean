import RenewalDrive.Job.Record

/-!
# Outcomes of attempts

What an attempt to renew the credentials of a domain reports.
-/

namespace RenewalDrive

inductive RenewStatus where
  /-- A complete set of credentials is staged. -/
  | complete
  /-- Progress was made; the renewal is to be continued. -/
  | inProgress
  /-- The configuration of the domain lacks something. -/
  | incompleteConfig
  | failed
deriving DecidableEq

namespace RenewStatus

def name : RenewStatus -> String
  | .complete => "complete"
  | .inProgress => "in_progress"
  | .incompleteConfig => "incomplete_config"
  | .failed => "failed"

def byName : List (String × RenewStatus) :=
  [RenewStatus.complete, .inProgress, .incompleteConfig, .failed].map fun status =>
    (status.name, status)

def driveStatus : RenewStatus -> DriveStatus
  | .complete => .ok
  | .inProgress => .inProgress
  | .incompleteConfig => .incomplete
  | .failed => .failed

end RenewStatus

structure RenewOutcome where
  status : RenewStatus
  message : Option String
  /-- When the staged credentials become valid. -/
  validFrom : Option Instant
deriving DecidableEq

namespace RenewOutcome

def complete (validFrom : Instant) : RenewOutcome :=
  ⟨.complete, none, some validFrom⟩

def failed (message : String) : RenewOutcome :=
  ⟨.failed, some message, none⟩

def inProgress (message : String) : RenewOutcome :=
  ⟨.inProgress, some message, none⟩

def isComplete (outcome : RenewOutcome) : Bool :=
  outcome.status = .complete

def driveStatus (outcome : RenewOutcome) : DriveStatus :=
  outcome.status.driveStatus

end RenewOutcome
end RenewalDrive
