import RenewalDrive.Domain.Registry
import RenewalDrive.Drive.Context
import RenewalDrive.Text.Blank

/-!
# Configurations

A configuration names the domains to manage, the commands that renew and announce,
the store, and how often to check. This module says what makes a configuration
valid, which settings of a drive it amounts to, and which registry it gives with the
credentials in use.
-/

namespace RenewalDrive

structure DomainEntry where
  name : String
  /-- Whom the renewal protocol may contact; without anybody nothing is renewed. -/
  contacts : List String
  driveMode : DriveMode
  /-- The window of this domain, if it has its own. -/
  renewWindow : Option RenewWindow
deriving DecidableEq

structure Config where
  storeDirectory : Option String
  notifyCommand : Option String
  renewCommand : Option String
  /-- The seconds between two full checks. -/
  checkInterval : Nat
  /-- The window of the domains that have none of their own. -/
  renewWindow : RenewWindow
  domains : List DomainEntry
deriving DecidableEq

namespace Config

/-! ## Validity -/

inductive Flaw where
  /-- A command is given, but without any word. -/
  | blankCommand (field : String)
  | emptyDomainName
  | repeatedDomain (name : String)
deriving DecidableEq

def Flaw.message : Flaw -> String
  | .blankCommand field => field ++ " is set but blank"
  | .emptyDomainName => "domain entry with an empty name"
  | .repeatedDomain name => "domain " ++ name ++ " is configured more than once"

def commandFlaw? (field : String) (command : Option String) : Option Flaw :=
  if command.any Text.allBlank then some (.blankCommand field) else none

/-- The first flaw of the entries that follow entries with the given names. -/
def domainFlaw? (seen : List String) : List DomainEntry -> Option Flaw
  | [] => none
  | entry :: rest =>
      if Text.allBlank entry.name then some .emptyDomainName
      else if seen.contains entry.name then some (.repeatedDomain entry.name)
      else domainFlaw? (entry.name :: seen) rest

def flaw? (config : Config) : Option Flaw :=
  commandFlaw? "notify_cmd" config.notifyCommand <|>
    commandFlaw? "renew_cmd" config.renewCommand <|>
    domainFlaw? [] config.domains

/-! ## Settings -/

def defaultCheckInterval : Nat := 86400

/-- The longest check interval in seconds. -/
def longestCheckInterval : Nat := 2592000

def intervalInRange (config : Config) : Bool :=
  1 ≤ config.checkInterval ∧ config.checkInterval ≤ longestCheckInterval

/-- The time between two full checks; an interval out of range counts as the default. -/
def cadence (config : Config) : Span :=
  if config.intervalInRange then .ofSeconds config.checkInterval else defaultCadence

def settings (config : Config) : DriveSettings where
  notifyCommand := config.notifyCommand
  cadence := config.cadence

def window (config : Config) (entry : DomainEntry) : RenewWindow :=
  entry.renewWindow.getD config.renewWindow

/-! ## Registries -/

def domain (config : Config) (entry : DomainEntry) (credential : Option Credential)
    (now : Instant) : ManagedDomain where
  name := entry.name
  state := .assess (!entry.contacts.isEmpty) credential now
  driveMode := entry.driveMode
  renewWindow := config.window entry
  credential := credential

/-- The registry of a configuration; `credentialOf` reads the credentials in use. -/
def registry {m : Type -> Type} [Monad m] (config : Config)
    (credentialOf : String -> m (Option Credential)) (now : Instant) : m Registry := do
  let domains ← config.domains.mapM fun entry => do
    let credential ← credentialOf entry.name
    return config.domain entry credential now
  return ⟨domains⟩

end Config
end RenewalDrive
