import RenewalDrive.Config.Basic
import RenewalDrive.Json.Record
import RenewalDrive.Json.Value

/-!
# Configurations in JSON

The text form of configurations. Only the name of a domain has to be given; all else
has a default. A configuration is written with all its fields, but an entry without a
window of its own is written without one.
-/

namespace RenewalDrive

namespace RenewWindow

def field {δ α : Type} (part : δ -> Option α) (put : δ -> α -> δ)
    (r : Json.Reader (Except Json.Cause α)) : Json.Field δ where
  name := "renew_window"
  isFilled draft := (part draft).isSome
  read draft := do
    let given ← r
    pure (given.map (put draft))
  isOptional := true

def optionalReader : Json.Reader (Except Json.Cause (Option RenewWindow)) := do
  match ← Json.Reader.optional reader with
  | none => pure (.ok none)
  | some given => pure (given.map some)

end RenewWindow

/-! ## Entries -/

namespace DomainEntry

def toJson (entry : DomainEntry) : Json.Value :=
  .object <|
    [("name", .text entry.name), ("contacts", .list (entry.contacts.map .text)),
      ("drive_mode", .text entry.driveMode.name)] ++
    match entry.renewWindow with
    | none => []
    | some window => [("renew_window", window.toJson)]

structure Draft where
  name : Option String := none
  contacts : Option (List String) := none
  driveMode : Option DriveMode := none
  renewWindow : Option (Option RenewWindow) := none

/-- The entry of a draft: only the name is needed. -/
def ofDraft (draft : Draft) : Except Json.Cause DomainEntry :=
  match draft.name with
  | none => .error (.missingField "name")
  | some name =>
      .ok
        { name := name
          contacts := draft.contacts.getD []
          driveMode := draft.driveMode.getD .auto
          renewWindow := draft.renewWindow.getD none }

def shape : Json.Shape Draft DomainEntry where
  title := "struct DomainConfig"
  fields :=
    [.plain "name" false (·.name) (fun draft v => { draft with name := some v }) Json.Reader.text,
      .plain "contacts" true (·.contacts) (fun draft v => { draft with contacts := some v })
        (Json.Reader.list Json.Reader.text),
      .plain "drive_mode" true (·.driveMode) (fun draft v => { draft with driveMode := some v })
        (Json.Reader.variant DriveMode.byName),
      RenewWindow.field (·.renewWindow) (fun draft v => { draft with renewWindow := some v })
        RenewWindow.optionalReader]
  empty := {}
  finish := ofDraft

def reader : Json.Reader DomainEntry :=
  Json.Reader.record shape

end DomainEntry

/-! ## Configurations -/

namespace Config

def textOrNull : Option String -> Json.Value
  | none => .null
  | some text => .text text

def toJson (config : Config) : Json.Value :=
  .object
    [("store_dir", textOrNull config.storeDirectory),
      ("notify_cmd", textOrNull config.notifyCommand),
      ("renew_cmd", textOrNull config.renewCommand),
      ("check_interval", .natural config.checkInterval),
      ("renew_window", config.renewWindow.toJson),
      ("domains", .list (config.domains.map DomainEntry.toJson))]

def checkIntervalLimit : Nat := 18446744073709551615

structure Draft where
  storeDirectory : Option (Option String) := none
  notifyCommand : Option (Option String) := none
  renewCommand : Option (Option String) := none
  checkInterval : Option Nat := none
  renewWindow : Option RenewWindow := none
  domains : Option (List DomainEntry) := none

/-- The configuration of a draft: everything has a default. -/
def ofDraft (draft : Draft) : Config where
  storeDirectory := draft.storeDirectory.getD none
  notifyCommand := draft.notifyCommand.getD none
  renewCommand := draft.renewCommand.getD none
  checkInterval := draft.checkInterval.getD defaultCheckInterval
  renewWindow := draft.renewWindow.getD .default
  domains := draft.domains.getD []

def shape : Json.Shape Draft Config where
  title := "struct Config"
  fields :=
    [.plain "store_dir" true (·.storeDirectory)
        (fun draft v => { draft with storeDirectory := some v })
        (Json.Reader.optional (Json.Reader.textAs "path string")),
      .plain "notify_cmd" true (·.notifyCommand)
        (fun draft v => { draft with notifyCommand := some v })
        (Json.Reader.optional Json.Reader.text),
      .plain "renew_cmd" true (·.renewCommand)
        (fun draft v => { draft with renewCommand := some v })
        (Json.Reader.optional Json.Reader.text),
      .plain "check_interval" true (·.checkInterval)
        (fun draft v => { draft with checkInterval := some v })
        (Json.Reader.natural checkIntervalLimit "u64"),
      RenewWindow.field (·.renewWindow) (fun draft v => { draft with renewWindow := some v })
        RenewWindow.reader,
      .plain "domains" true (·.domains) (fun draft v => { draft with domains := some v })
        (Json.Reader.list DomainEntry.reader)]
  empty := {}
  finish draft := .ok (ofDraft draft)

def reader : Json.Reader Config :=
  Json.Reader.record shape

def ofText (text : String) : Except Json.Fault Config :=
  Json.readText reader text

end Config
end RenewalDrive
