import RenewalDrive.Json.Fault

/-!
# Stores

A store keeps records under names in three groups. This module has the groups, the
names that a store accepts, and the errors of its operations.
-/

namespace RenewalDrive

inductive Group where
  /-- What a renewal in progress has made so far, and the job record. -/
  | staging
  /-- Short-lived files of the renewal protocol. -/
  | challenges
  /-- The credentials in use. -/
  | domains
deriving DecidableEq

namespace Group

def name : Group -> String
  | .staging => "staging"
  | .challenges => "challenges"
  | .domains => "domains"

def all : List Group :=
  [.staging, .challenges, .domains]

def byName : List (String × Group) :=
  all.map fun group => (group.name, group)

end Group

/-! ## Names -/

inductive NameFault where
  | empty
  | notOneComponent (name : String)
deriving DecidableEq

namespace NameFault

def message : NameFault -> String
  | .empty => "name cannot be empty"
  | .notOneComponent name => Text.quoted name ++ " is not a single path component"

def forbidden : List Char :=
  ['/', '\\', '\x00']

/-- The fault of a name: a name has to be one component of a path. -/
def ofName? (name : String) : Option NameFault :=
  if name = "" then some .empty
  else if name = "." ∨ name = ".." ∨ name.toList.any (forbidden.contains ·) then
    some (.notOneComponent name)
  else none

end NameFault

/-! ## Errors -/

inductive FileError where
  | notFound
  | notDirectory
  | isDirectory
  | alreadyExists
  | nameTooLong
  /-- What is to be run is no program. -/
  | permissionDenied
  /-- The file does not hold UTF-8 text. -/
  | notText
  /-- The name of a file holds a character that no such name may hold. -/
  | zeroCharacter
deriving DecidableEq

def FileError.message : FileError -> String
  | .notFound => "No such file or directory (os error 2)"
  | .notDirectory => "Not a directory (os error 20)"
  | .isDirectory => "Is a directory (os error 21)"
  | .alreadyExists => "File exists (os error 17)"
  | .nameTooLong => "File name too long (os error 36)"
  | .permissionDenied => "Permission denied (os error 13)"
  | .notText => "stream did not contain valid UTF-8"
  | .zeroCharacter => "file name contained an unexpected NUL byte"

inductive Request where
  | load (name : String)
  | save (name : String)
  | credential (name : String)
  | list (group : Group)
  | purge (group : Group) (name : String)
deriving DecidableEq

def Request.message : Request -> String
  | .load name => "load of " ++ name
  | .save name => "save of " ++ name
  | .credential name => "credential of " ++ name
  | .list group => "list of " ++ group.name
  | .purge group name => "purge_" ++ group.name ++ " of " ++ name

inductive StoreError where
  | file (error : FileError)
  | json (fault : Json.Fault)
  | name (fault : NameFault)
  | unavailable (request : Request)

def StoreError.message : StoreError -> String
  | .file error => "IO error: " ++ error.message
  | .json fault => "JSON error: " ++ fault.message
  | .name fault => "invalid record name: " ++ fault.message
  | .unavailable request => "store unavailable: " ++ request.message ++ " rejected"

def StoreError.nestedMessage (error : StoreError) : String :=
  "store error: " ++ error.message

end RenewalDrive
