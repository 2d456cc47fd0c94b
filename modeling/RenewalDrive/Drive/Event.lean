import RenewalDrive.Domain.Managed
import RenewalDrive.Job.Basic
import RenewalDrive.Store.Basic
import RenewalDrive.Time.Rfc2822

/-!
# Events

What a drive tells its log. Each event has a level and a text, and some have a code
by which they can be found. The times of two events are written as mail dates, so
their text may not exist.
-/

namespace RenewalDrive

/-! ## Levels -/

inductive LogLevel where
  | error
  | warn
  | info
  | debug
  | trace
deriving DecidableEq

namespace LogLevel

def name : LogLevel -> String
  | .error => "ERROR"
  | .warn => "WARN"
  | .info => "INFO"
  | .debug => "DEBUG"
  | .trace => "TRACE"

/-- Levels that matter more have smaller numbers. -/
def rank : LogLevel -> Nat
  | .error => 0
  | .warn => 1
  | .info => 2
  | .debug => 3
  | .trace => 4

/-- A log that is kept at a level takes the events that matter at least as much;
one without a level takes none. -/
def takes (kept : Option LogLevel) (level : LogLevel) : Bool :=
  kept.any fun kept => level.rank ≤ kept.rank

end LogLevel

/-! ## Halts -/

inductive Halt where
  /-- An instant would lie outside the range of instants. -/
  | timeOutOfRange
  /-- An event has a time whose year cannot be written. -/
  | yearUnwritable
  /-- A count of errors would lie outside its range, and this is checked. -/
  | countOutOfRange
deriving DecidableEq

/-! ## Events -/

inductive Event where
  | keptUnsaved (name : String)
  | loadFailed (name : String) (error : StoreError)
  | unmanagedJob (name : String)
  | informationMissing (name : String) (errorRuns : Nat)
  | driving (name : String) (state : DomainState)
  | renewed (name : String) (validFrom now : Instant)
  | attemptFailed (name : String) (status : DriveStatus) (message : Option String)
  | backingOff (name : String) (errorRuns : Nat) (delay : Span)
  | nothingToRenew (name : String) (expires : Instant)
  | credentialFailed (name : String) (error : StoreError)
  | generationBegun (name : String)
  | stagingPurgeFailed (name : String) (error : StoreError)
  | saved (name : String)
  | saveFailed (name : String) (error : StoreError)
  | driveReset (name : String)
  | jobCreated (name : String)
  | recovering (name : String) (errorRuns : Nat)
  | purgeFailed (name : String) (group : Group) (error : StoreError)
  | nothingToDrive
  | nextTick (wait : Span)
  | watchdogStarted (jobs : Nat)
  | watchdogTick (jobs : Nat)
  | watchdogStopping
  | challengesUnlisted (error : StoreError)
  | stalePurged (name : String)
  | stalePurgeFailed (name : String) (error : StoreError)
  | notifyReturned (command : String) (exitCode : Option Int)
  | notifyFailed (command : String) (names : List String)
  | announced (names : List String)
  | entryPurged (group : Group) (name : String)
  | renewReported (name : String)
  | renewCommandFailed (name : String) (reason : String)
  | timerStarting
  | timerSleeping (wait : Span)
  | timerStopped
  | intervalOutOfRange (seconds : Nat)
  | daemonStarting (domains : Nat)
  | daemonIdle
  | daemonStopped

namespace Event

def level : Event -> LogLevel
  | .keptUnsaved _ => .debug
  | .loadFailed _ _ => .warn
  | .unmanagedJob _ => .warn
  | .informationMissing _ _ => .debug
  | .driving _ _ => .debug
  | .renewed _ _ _ => .info
  | .attemptFailed _ _ _ => .error
  | .backingOff _ _ _ => .info
  | .nothingToRenew _ _ => .debug
  | .credentialFailed _ _ => .warn
  | .generationBegun _ => .info
  | .stagingPurgeFailed _ _ => .error
  | .saved _ => .trace
  | .saveFailed _ _ => .error
  | .driveReset _ => .info
  | .jobCreated _ => .debug
  | .recovering _ _ => .info
  | .purgeFailed _ _ _ => .error
  | .nothingToDrive => .debug
  | .nextTick _ => .debug
  | .watchdogStarted _ => .debug
  | .watchdogTick _ => .debug
  | .watchdogStopping => .debug
  | .challengesUnlisted _ => .error
  | .stalePurged _ => .debug
  | .stalePurgeFailed _ _ => .error
  | .notifyReturned _ _ => .debug
  | .notifyFailed _ _ => .error
  | .announced _ => .info
  | .entryPurged _ _ => .debug
  | .renewReported _ => .debug
  | .renewCommandFailed _ _ => .warn
  | .timerStarting => .info
  | .timerSleeping _ => .debug
  | .timerStopped => .info
  | .intervalOutOfRange _ => .warn
  | .daemonStarting _ => .info
  | .daemonIdle => .info
  | .daemonStopped => .info

def code? : Event -> Option Nat
  | .driving _ _ => some 1001
  | .renewed _ _ _ => some 1002
  | .attemptFailed _ _ _ => some 1003
  | .backingOff _ _ _ => some 1004
  | .nothingToRenew _ _ => some 1005
  | .watchdogStarted _ => some 1006
  | .watchdogTick _ => some 1007
  | .watchdogStopping => some 1008
  | .nextTick _ => some 1009
  | .notifyReturned _ _ => some 1010
  | .notifyFailed _ _ => some 1011
  | .announced _ => some 1012
  | .recovering _ _ => some 1014
  | .nothingToDrive => some 1015
  | .stalePurged _ => some 1016
  | .saveFailed _ _ => some 1017
  | .loadFailed _ _ => some 1018
  | .informationMissing _ _ => some 1019
  | .generationBegun _ => some 1020
  | _ => none

/-- One word for a single domain, and another for more. -/
def byNumber (names : List String) (one more : String) : String :=
  if names.length ≤ 1 then one else more

def mailDate (t : Instant) : Except Halt String :=
  match Rfc2822.write? t with
  | some text => .ok text
  | none => .error .yearUnwritable

def text : Event -> Except Halt String
  | .keptUnsaved _ => .ok "job has unsaved changes, skipping reload"
  | .loadFailed _ _ => .ok "failed to load job props"
  | .unmanagedJob _ => .ok "drive job has no managed domain, skipping"
  | .informationMissing _ _ => .ok "domain is missing required information"
  | .driving _ _ => .ok "driving"
  | .renewed name validFrom now => do
      let date ← mailDate validFrom
      return name ++ ": has been renewed successfully and should be activated at " ++ date ++
        " (this requires a server restart latest in " ++ (validFrom.since now).phrase ++ ")"
  | .attemptFailed _ _ _ => .ok "renewal attempt failed"
  | .backingOff name errorRuns delay =>
      .ok (name ++ ": encountered error for the " ++ Text.naturalText errorRuns ++
        ". time, next run in " ++ delay.phrase)
  | .nothingToRenew _ expires => do
      let _ ← mailDate expires
      return "no need to renew yet"
  | .credentialFailed _ _ => .ok "failed to load installed credentials"
  | .generationBegun name =>
      .ok (name ++ ": staged credentials are active, starting a new renewal generation")
  | .stagingPurgeFailed _ _ => .ok "failed to purge staging"
  | .saved _ => .ok "saved job props"
  | .saveFailed _ _ => .ok "failed to save job props"
  | .driveReset _ => .ok "reset drive state"
  | .jobCreated _ => .ok "created drive job"
  | .recovering _ errorRuns =>
      .ok ("previous drive job showed " ++ Text.naturalText errorRuns ++
        " errors, purging staging area to reset")
  | .purgeFailed _ _ _ => .ok "failed to purge"
  | .nothingToDrive =>
      .ok ("no managed domain in state to drive, no watchdog needed, " ++
        "will check again on next restart")
  | .nextTick wait => .ok ("next run in " ++ wait.phrase)
  | .watchdogStarted jobs =>
      .ok ("drive watchdog start, auto drive " ++ Text.naturalText jobs ++ " domains")
  | .watchdogTick jobs =>
      .ok ("drive watchdog run, auto drive " ++ Text.naturalText jobs ++ " domains")
  | .watchdogStopping => .ok "drive watchdog stopping"
  | .challengesUnlisted _ => .ok "failed to list challenge entries"
  | .stalePurged _ => .ok "purged stale challenge entry"
  | .stalePurgeFailed _ _ => .ok "failed to purge stale challenge entry"
  | .notifyReturned _ _ => .ok "notify command returned"
  | .notifyFailed command names =>
      .ok ("executing notify command " ++ command ++
        " failed. This is sad, as I wanted to tell you that the managed domain" ++
        byNumber names "" "s" ++ " " ++ String.intercalate " " names ++ " " ++
        byNumber names "is" "are" ++ " ready for a server reload")
  | .announced names =>
      .ok ("The managed domain" ++ byNumber names "" "s" ++ " " ++
        String.intercalate " " names ++ " " ++ byNumber names "has" "have" ++
        " been set up and changes will be activated on next (graceful) server restart.")
  | .entryPurged _ _ => .ok "purged store entry"
  | .renewReported _ => .ok "renew command reported"
  | .renewCommandFailed _ _ => .ok "renew command failed"
  | .timerStarting => .ok "watchdog starting"
  | .timerSleeping _ => .ok "watchdog sleeping"
  | .timerStopped => .ok "watchdog stopped"
  | .intervalOutOfRange _ => .ok "check_interval out of range, using the default"
  | .daemonStarting _ => .ok "starting mdrive daemon"
  | .daemonIdle => .ok "nothing to drive, exiting"
  | .daemonStopped => .ok "mdrive daemon stopped"

end Event

structure LogEntry where
  code : Option Nat
  level : LogLevel
  text : String
deriving DecidableEq

/-- The entries that an event adds to a log: one if the log takes its level. -/
def Event.entries (kept : Option LogLevel) (event : Event) : Except Halt (List LogEntry) := do
  if LogLevel.takes kept event.level then
    return [⟨event.code?, event.level, ← event.text⟩]
  else
    return []

end RenewalDrive
