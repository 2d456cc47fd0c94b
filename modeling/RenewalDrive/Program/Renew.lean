import RenewalDrive.Drive.Outcome
import RenewalDrive.Json.Record
import RenewalDrive.Program.Basic
import RenewalDrive.Store.Files
import RenewalDrive.Text.Blank
import RenewalDrive.Text.Utf8

/-!
# Renew commands

An attempt to renew runs a command with the name of the domain and its staging
directory. The command reports its outcome as a JSON object on its output. A command
that cannot be run, ends without success, or reports something else fails the attempt.
-/

namespace RenewalDrive

/-! ## Reports -/

namespace RenewOutcome

structure Draft where
  status : Option RenewStatus := none
  message : Option (Option String) := none
  validFrom : Option (Option Instant) := none

def shape : Json.Shape Draft RenewOutcome where
  title := "struct RenewReport"
  fields :=
    [.plain "status" false (·.status) (fun draft v => { draft with status := some v })
        (Json.Reader.variant RenewStatus.byName),
      .plain "message" true (·.message) (fun draft v => { draft with message := some v })
        (Json.Reader.optional Json.Reader.text),
      .plain "valid_from" true (·.validFrom) (fun draft v => { draft with validFrom := some v })
        (Json.Reader.optional Json.Reader.instant)]
  empty := {}
  finish draft :=
    match draft.status with
    | none => .error (.missingField "status")
    | some status => .ok ⟨status, draft.message.getD none, draft.validFrom.getD none⟩

def reader : Json.Reader RenewOutcome :=
  Json.Reader.record shape

end RenewOutcome

/-! ## Attempts -/

inductive RenewFault where
  | emptyCommand
  | name (error : StoreError)
  | noDirectory (directory : String) (error : FileError)
  | notRun (program : String) (error : LaunchError)
  | unsuccessful (ending : ProgramEnd) (complaints : List UInt8)
  | unreadable (fault : Json.Fault)

def RenewFault.message : RenewFault -> String
  | .emptyCommand => "renew command is empty"
  | .name error => error.message
  | .noDirectory directory error => "failed to create " ++ directory ++ ": " ++ error.message
  | .notRun program error => "failed to run " ++ program ++ ": " ++ error.message
  | .unsuccessful ending complaints =>
      "renew command exited with " ++ ending.message ++ ": " ++
        Text.trimmed (Text.Utf8.text complaints)
  | .unreadable fault => "unreadable renew report: " ++ fault.message

structure RenewCommand where
  words : List String
  store : FileStore

namespace RenewCommand

def ofText (text : String) (store : FileStore) : RenewCommand :=
  ⟨Text.words text, store⟩

/-- The variable that tells a command to start over. -/
def resetVariable : String := "MDRIVE_RESET"

def launch (command : RenewCommand) (name directory : String) (reset : Bool) : Launch where
  words := command.words ++ [name, directory]
  environment := if reset then [(resetVariable, "1")] else []

def report (run : ProgramRun) : Except RenewFault RenewOutcome :=
  if run.ending.isSuccess then (Json.readBytes RenewOutcome.reader run.output).mapError .unreadable
  else .error (.unsuccessful run.ending run.complaints)

def part {ε α : Type} (fault : ε -> RenewFault) (act : ExceptT ε (StateM Tree) α) :
    ExceptT RenewFault (StateM Tree) α :=
  fun tree =>
    let (result, tree) := act tree
    (result.mapError fault, tree)

def attempt (command : RenewCommand) (programs : Programs) (name : String) (reset : Bool) :
    ExceptT RenewFault (StateM Tree) RenewOutcome := do
  let some program := command.words.head? | throw .emptyCommand
  let directory ← part .name (liftM (command.store.entryRoute .staging name))
  part (.noDirectory directory.text) (FileAct.makeDirectories directory)
  let run ← part (.notRun program) (programs.start (command.launch name directory.text reset))
  liftM (report run)

end RenewCommand
end RenewalDrive
