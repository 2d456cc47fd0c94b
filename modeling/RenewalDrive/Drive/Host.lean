import RenewalDrive.Drive.Event
import RenewalDrive.Drive.Outcome
import RenewalDrive.Program.Basic

/-!
# Hosts of a drive

A drive reads a clock, keeps records in a store, makes attempts to renew, and runs
the notify command. A host offers all this in a world of its own choice, so the drive
itself is the same before files and programs as before a rehearsed sequence of
answers.
-/

namespace RenewalDrive

/-- A step of a drive: it may change the world, and it may halt. -/
abbrev Act (σ : Type) := StateT σ (Except Halt)

structure Host (σ : Type) where
  now : Act σ Instant
  loadJob : String -> Act σ (Except StoreError (Option JobRecord))
  saveJob : String -> JobRecord -> Act σ (Except StoreError Unit)
  loadCredential : String -> Act σ (Except StoreError (Option Credential))
  purge : Group -> String -> Act σ (Except StoreError Unit)
  listNames : Group -> Act σ (Except StoreError (List String))
  /-- Makes an attempt for a domain, from the beginning if the mark is set. -/
  attempt : ManagedDomain -> Bool -> Act σ RenewOutcome
  /-- Runs a command; answers its exit code, if it has one. -/
  execute : List String -> Act σ (Except LaunchError (Option Int))
  note : Event -> Act σ Unit
  /-- Is passed where a count of errors at its limit starts over. -/
  overflow : Act σ Unit := pure ()

def Act.halt {σ α : Type} (halt : Halt) : Act σ α :=
  fun _ => .error halt

def Act.instant {σ : Type} : Option Instant -> Act σ Instant
  | some t => pure t
  | none => Act.halt .timeOutOfRange

namespace Host

variable {σ : Type} (host : Host σ)

/-- The host with a check of its counts: where one would start over, the drive halts. -/
def checked : Host σ :=
  { host with overflow := Act.halt .countOutOfRange }

def count (errorRuns : ErrorCount) : Act σ Unit :=
  if errorRuns + 1 = 0 then host.overflow else pure ()

end Host

end RenewalDrive
