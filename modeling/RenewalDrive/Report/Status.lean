import RenewalDrive.Domain.Registry
import RenewalDrive.Job.Phase

/-!
# The status report

A table with one line for each managed domain, in the order of the configuration. The
first column is as wide as the longest name takes in bytes; the other columns have
fixed widths, counted in characters.
-/

namespace RenewalDrive

structure StatusRow where
  name : String
  driveMode : DriveMode
  phase : JobPhase
  /-- How the last attempt ended, if there is a record. -/
  status : Option DriveStatus
  nextRun : Option Instant
  errorRuns : Nat
  message : Option String
deriving DecidableEq

namespace StatusRow

def ofDomain (domain : ManagedDomain) (record : Option JobRecord) (now : Instant) :
    StatusRow where
  name := domain.name
  driveMode := domain.driveMode
  phase := .classify record domain now
  status := record.map (·.lastStatus)
  nextRun := record.bind (·.nextRun)
  errorRuns := (record.map (·.errorRuns)).getD 0
  message := record.bind (·.lastMessage)

/-- The lines of all domains; `recordOf` reads the records. -/
def collect {m : Type -> Type} [Monad m] (registry : Registry)
    (recordOf : String -> m (Option JobRecord)) (now : Instant) : m (List StatusRow) :=
  registry.domains.mapM fun domain => do
    let record ← recordOf domain.name
    return ofDomain domain record now

/-! ## Text -/

def cells (width : Nat) (name mode phase status errors next : String) : String :=
  Text.padRight width name ++ "  " ++ Text.padRight 6 mode ++ "  " ++ Text.padRight 27 phase ++
    "  " ++ Text.padRight 11 status ++ "  " ++ Text.padLeft 6 errors ++ "  " ++ next

def header (width : Nat) : String :=
  cells width "DOMAIN" "MODE" "PHASE" "STATUS" "ERRORS" "NEXT RUN" ++ "\n"

def nextText (nextRun : Option Instant) (now : Instant) : String :=
  match nextRun with
  | none => "-"
  | some t => if now < t then "in " ++ (t.since now).phrase else "due"

def messageText : Option String -> String
  | none => ""
  | some message => "  (" ++ message ++ ")"

def text (width : Nat) (row : StatusRow) (now : Instant) : String :=
  cells width row.name row.driveMode.name row.phase.name ((row.status.map (·.name)).getD "-")
    (Text.naturalText row.errorRuns) (nextText row.nextRun now) ++ messageText row.message ++ "\n"

def nameWidth (rows : List StatusRow) : Nat :=
  (rows.map fun row => row.name.utf8ByteSize).foldl max 6

def table (rows : List StatusRow) (now : Instant) : String :=
  header (nameWidth rows) ++ String.join (rows.map fun row => row.text (nameWidth rows) now)

end StatusRow
end RenewalDrive
