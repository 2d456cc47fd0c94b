import RenewalDrive.Job.Record
import RenewalDrive.Domain.Credential
import RenewalDrive.Store.Basic

/-!
# The memory store

A store that keeps its records in memory. Job records belong to the staging group
and credentials to the domains group, so purging an entry of these groups drops
them, too.
-/

namespace RenewalDrive

/-! ## Sorted names -/

/-- Puts a name into an ascending list of names that has each name once. -/
def insertName (name : String) : List String -> List String
  | [] => [name]
  | first :: rest =>
      if name < first then name :: first :: rest
      else if name = first then first :: rest
      else first :: insertName name rest

/-- A store in memory: records and credentials by name, and the names of each group
in ascending order. -/
structure MemoryStore where
  records : String -> Option JobRecord
  credentials : String -> Option Credential
  entries : Group -> List String

namespace MemoryStore

def empty : MemoryStore where
  records _ := none
  credentials _ := none
  entries _ := []

/-! ## Entries -/

def addEntry (store : MemoryStore) (group : Group) (name : String) : MemoryStore :=
  { store with
    entries := fun g => if g = group then insertName name (store.entries g) else store.entries g }

def saveJob (store : MemoryStore) (name : String) (record : JobRecord) : MemoryStore :=
  { store.addEntry .staging name with
    records := fun n => if n = name then some record else store.records n }

def saveCredential (store : MemoryStore) (name : String) (credential : Credential) :
    MemoryStore :=
  { store.addEntry .domains name with
    credentials := fun n => if n = name then some credential else store.credentials n }

def purge (store : MemoryStore) (group : Group) (name : String) : MemoryStore where
  records := fun n =>
    if group = .staging ∧ n = name then none else store.records n
  credentials := fun n =>
    if group = .domains ∧ n = name then none else store.credentials n
  entries := fun g =>
    if g = group then (store.entries g).filter (· ≠ name) else store.entries g

def loadJob (store : MemoryStore) (name : String) : Option JobRecord :=
  store.records name

def loadCredential (store : MemoryStore) (name : String) : Option Credential :=
  store.credentials name

def listNames (store : MemoryStore) (group : Group) : List String :=
  store.entries group

end MemoryStore
end RenewalDrive
