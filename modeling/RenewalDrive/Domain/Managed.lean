import RenewalDrive.Domain.Window

/-!
# Managed domains

A managed domain has a name, the credentials in use, a renew window, and a state
that says whether credentials are installed and still valid. `ManagedDomain.shouldRenew`
is the renewal policy.
-/

namespace RenewalDrive

inductive DomainState where
  /-- No usable credentials are installed. -/
  | incomplete
  /-- Credentials are installed and have not expired. -/
  | complete
  /-- The installed credentials have expired. -/
  | expired
  /-- The configuration lacks something that a renewal needs. -/
  | missingInformation
deriving DecidableEq

namespace DomainState

def assess (hasInformation : Bool) (credential : Option Credential) (now : Instant) :
    DomainState :=
  if ¬ hasInformation then .missingInformation
  else
    match credential with
    | none => .incomplete
    | some credential => if credential.expires ≤ now then .expired else .complete

def label : DomainState -> String
  | .incomplete => "incomplete"
  | .complete => "complete"
  | .expired => "expired"
  | .missingInformation => "missing_information"

end DomainState

inductive DriveMode where
  /-- Renew when the window opens. -/
  | auto
  /-- Renew when the window opens, too. -/
  | always
  /-- Never renew; the credentials are managed by hand. -/
  | manual
deriving DecidableEq

namespace DriveMode

def name : DriveMode -> String
  | .auto => "auto"
  | .always => "always"
  | .manual => "manual"

def byName : List (String × DriveMode) :=
  [DriveMode.auto, .always, .manual].map fun mode => (mode.name, mode)

end DriveMode

structure ManagedDomain where
  name : String
  state : DomainState
  driveMode : DriveMode
  renewWindow : RenewWindow
  credential : Option Credential
deriving DecidableEq

namespace ManagedDomain

def expires (domain : ManagedDomain) : Option Instant :=
  domain.credential.map (·.expires)

/-- The renew window of some credentials is open; a window that reaches beyond the
first instant always is. -/
def windowOpen (window : RenewWindow) (credential : Credential) (now : Instant) : Bool :=
  match credential.expires.sub? (window.lead credential) with
  | none => true
  | some opens => opens ≤ now

def shouldRenew (domain : ManagedDomain) (now : Instant) : Bool :=
  match domain.state with
  | .missingInformation => false
  | .incomplete => true
  | .expired => true
  | .complete =>
      match domain.credential with
      | none => true
      | some credential => windowOpen domain.renewWindow credential now

/-- The domain with other credentials in use; its state is assessed anew unless the
configuration lacks something. -/
def install (domain : ManagedDomain) (credential : Credential) (now : Instant) :
    ManagedDomain :=
  { domain with
    state :=
      if domain.state = .missingInformation then domain.state
      else .assess true (some credential) now
    credential := some credential }

end ManagedDomain
end RenewalDrive
