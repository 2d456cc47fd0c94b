import RenewalDrive.Domain.Credential
import RenewalDrive.Job.Record
import RenewalDrive.Store.Tree

/-!
# The file store

A store in a file tree: the entry for a name in a group is the directory
`<base>/<group>/<name>`, and its record is a JSON file in there. A record is
written to a temporary file that then takes the place of the old one. A write that
fails ends the save here; a file that tells of the failure too late does not end it,
which the attempts at a save allow for.
-/

namespace RenewalDrive

structure FileStore where
  base : Route
deriving DecidableEq

def jobFileName : String := "job.json"

def jobTemporaryName : String := "job.tmp"

def credentialFileName : String := "cert.json"

def credentialTemporaryName : String := "cert.tmp"

/-! ## Writing a record in steps -/

inductive SaveStep where
  | makeDirectories (route : Route)
  | create (route : Route)
  | append (route : Route) (bytes : List UInt8)
  /-- Waits until the content of a file is kept for good. -/
  | sync (route : Route)
  | rename (source target : Route)
deriving DecidableEq

def SaveStep.run : SaveStep -> FileAct Unit
  | .makeDirectories route => FileAct.makeDirectories route
  | .create route => FileAct.createFile route
  | .append route bytes => FileAct.appendBytes route bytes
  | .sync route => do
      let _ ← FileAct.readBytes route
  | .rename source target => FileAct.renameFile source target

/-- The steps of writing a file in a directory through a temporary one. -/
def saveSteps (directory : Route) (temporary name : String) (content : List UInt8) :
    List SaveStep :=
  [.makeDirectories directory, .create (directory.child temporary),
    .append (directory.child temporary) content, .sync (directory.child temporary),
    .rename (directory.child temporary) (directory.child name)]

abbrev StoreAct := ExceptT StoreError (StateM Tree)

namespace FileStore

def ofFiles {α : Type} (act : FileAct α) : StoreAct α :=
  fun tree =>
    match act tree with
    | (.ok value, tree) => (.ok value, tree)
    | (.error error, tree) => (.error (.file error), tree)

/-- An operation on the tree that answers nothing where nothing is found. -/
def unlessMissing {α : Type} (act : FileAct α) : StoreAct (Option α) :=
  fun tree =>
    match act tree with
    | (.ok value, tree) => (.ok (some value), tree)
    | (.error .notFound, tree) => (.ok none, tree)
    | (.error error, tree) => (.error (.file error), tree)

/-! ## Entries -/

def groupRoute (store : FileStore) (group : Group) : Route :=
  store.base.child group.name

def entryRoute (store : FileStore) (group : Group) (name : String) : Except StoreError Route :=
  match NameFault.ofName? name with
  | some fault => .error (.name fault)
  | none => .ok ((store.groupRoute group).child name)

/-! ## Operations -/

/-- Reads a record from a file; without the file there is no record. -/
def readRecord {α : Type} (r : Json.Reader α) (route : Route) : StoreAct (Option α) := do
  match ← unlessMissing (FileAct.readText route) with
  | none => return none
  | some text =>
      match Json.readText r text with
      | .ok value => return some value
      | .error fault => throw (.json fault)

def writeRecord (directory : Route) (temporary name : String) (value : Json.Value) :
    StoreAct Unit :=
  ofFiles ((saveSteps directory temporary name (Json.bytesOf value.pretty)).forM SaveStep.run)

def loadJob (store : FileStore) (name : String) : StoreAct (Option JobRecord) := do
  let entry ← store.entryRoute .staging name
  readRecord JobRecord.reader (entry.child jobFileName)

def saveJob (store : FileStore) (name : String) (record : JobRecord) : StoreAct Unit := do
  let entry ← store.entryRoute .staging name
  writeRecord entry jobTemporaryName jobFileName record.toJson

def loadCredential (store : FileStore) (name : String) : StoreAct (Option Credential) := do
  let entry ← store.entryRoute .domains name
  readRecord Credential.reader (entry.child credentialFileName)

def saveCredential (store : FileStore) (name : String) (credential : Credential) :
    StoreAct Unit := do
  let entry ← store.entryRoute .domains name
  writeRecord entry credentialTemporaryName credentialFileName credential.toJson

/-- Removes the entry for a name in a group; tells whether there was one. -/
def purge (store : FileStore) (group : Group) (name : String) : StoreAct Bool := do
  let entry ← store.entryRoute group name
  return (← unlessMissing (FileAct.removeDirectory entry)).isSome

/-- The names with an entry in a group, ascending. -/
def listNames (store : FileStore) (group : Group) : StoreAct (List String) := do
  let names ← unlessMissing (FileAct.listDirectories (store.groupRoute group))
  return (names.getD []).mergeSort fun a b => a ≤ b

end FileStore
end RenewalDrive
