import RenewalDrive.Drive.Context
import RenewalDrive.Store.Memory

/-!
# Rehearsals

A world in which everything around a drive is set down beforehand: a store in memory,
what the store refuses, the readings of the clock, the outcomes of the attempts, and
the results of the notify command. It keeps a journal of all that the drive asked for
and what it was told, so what a drive does over time can be read off its journal.

The moment of a request is the number of entries in the journal before it.
-/

namespace RenewalDrive

inductive Deed where
  | clockRead (answer : Instant)
  | recordLoaded (name : String) (answer : Except StoreError (Option JobRecord))
  | recordSaved (name : String) (record : JobRecord) (answer : Except StoreError Unit)
  | credentialLoaded (name : String) (answer : Except StoreError (Option Credential))
  | purged (group : Group) (name : String) (answer : Except StoreError Unit)
  | listed (group : Group) (answer : Except StoreError (List String))
  | attempted (domain : ManagedDomain) (reset : Bool) (answer : RenewOutcome) (took : Span)
  | executed (words : List String) (answer : Except LaunchError (Option Int))
  | noted (entry : LogEntry)

namespace Deed

def isSave : Deed -> Bool
  | .recordSaved _ _ (.ok _) => true
  | _ => false

/-- The entry that was removed, if the deed is a purge that was not refused. -/
def purge? : Deed -> Option (Group × String)
  | .purged group name (.ok _) => some (group, name)
  | _ => none

def attempt? : Deed -> Option (ManagedDomain × Bool)
  | .attempted domain reset _ _ => some (domain, reset)
  | _ => none

def command? : Deed -> Option (List String)
  | .executed words _ => some words
  | _ => none

def entry? : Deed -> Option LogEntry
  | .noted entry => some entry
  | _ => none

end Deed

structure Script where
  /-- The domain that the outcome is for, if it is for one only. -/
  reserved : Option String
  outcome : RenewOutcome
  /-- How long the attempt takes. -/
  took : Span

namespace Script

def unscripted : Script :=
  ⟨none, .failed "no scripted outcome", .zero⟩

def pick? (fits : Script -> Bool) : List Script -> Option (Script × List Script)
  | [] => none
  | first :: rest =>
      if fits first then some (first, rest)
      else (pick? fits rest).map fun (script, rest) => (script, first :: rest)

/-- The script for an attempt of a domain, and the other ones. Scripts that are for
this domain only come before those that are for all. -/
def next (name : String) (scripts : List Script) : Script × List Script :=
  match pick? (·.reserved = some name) scripts with
  | some (script, rest) => (script, rest)
  | none => (pick? (·.reserved = none) scripts).getD (unscripted, scripts)

end Script

structure Rehearsal where
  store : MemoryStore
  /-- The requests that the store refuses at each moment. -/
  refuses : Nat -> Request -> Bool
  /-- The clock at each moment. -/
  clock : Nat -> Instant
  /-- The outcomes of the attempts to come. -/
  scripts : List Script
  /-- The result of a command at each moment. -/
  runner : Nat -> List String -> Except LaunchError (Option Int)
  /-- The level of the log, if one is kept. -/
  kept : Option LogLevel
  /-- The deeds so far, the last one first. -/
  journal : List Deed

namespace Rehearsal

def moment (world : Rehearsal) : Nat :=
  world.journal.length

/-- The deeds from a moment on, in the order of time. -/
def deedsFrom (world : Rehearsal) (moment : Nat) : List Deed :=
  (world.journal.take (world.moment - moment)).reverse

def saves (world : Rehearsal) : Nat :=
  world.journal.countP Deed.isSave

def after (world : Rehearsal) (deed : Deed) : Rehearsal :=
  { world with journal := deed :: world.journal }

def pinned (world : Rehearsal) (t : Instant) : Rehearsal :=
  { world with clock := fun _ => t }

def reading (world : Rehearsal) : Instant :=
  world.clock world.moment

/-- The world after some time has passed; the clock stands still from then on. -/
def advance (world : Rehearsal) (span : Span) : Except Halt Rehearsal :=
  if span = .zero then .ok world
  else
    match world.reading.add? span with
    | some t => .ok (world.pinned t)
    | none => .error .timeOutOfRange

/-! ## Requests to the store -/

/-- A request to the store: the answer and the store after it, unless the store
refuses. -/
def ask {α : Type} (request : Request) (deed : Except StoreError α -> Deed)
    (serve : MemoryStore -> α × MemoryStore) : Act Rehearsal (Except StoreError α) :=
  fun world =>
    if world.refuses world.moment request then
      let answer := .error (.unavailable request)
      .ok (answer, world.after (deed answer))
    else
      let (answer, store) := serve world.store
      .ok (.ok answer, { world with store := store }.after (deed (.ok answer)))

def loadJob (name : String) : Act Rehearsal (Except StoreError (Option JobRecord)) :=
  ask (.load name) (.recordLoaded name) fun store => (store.loadJob name, store)

def saveJob (name : String) (record : JobRecord) : Act Rehearsal (Except StoreError Unit) :=
  ask (.save name) (.recordSaved name record) fun store => ((), store.saveJob name record)

def loadCredential (name : String) : Act Rehearsal (Except StoreError (Option Credential)) :=
  ask (.credential name) (.credentialLoaded name) fun store => (store.loadCredential name, store)

def purge (group : Group) (name : String) : Act Rehearsal (Except StoreError Unit) :=
  ask (.purge group name) (.purged group name) fun store => ((), store.purge group name)

def listNames (group : Group) : Act Rehearsal (Except StoreError (List String)) :=
  ask (.list group) (.listed group) fun store => (store.listNames group, store)

/-! ## Other requests -/

def now : Act Rehearsal Instant :=
  fun world => .ok (world.reading, world.after (.clockRead world.reading))

/-- Makes an attempt: its outcome is the next one that was set down for the domain. -/
def attempt (domain : ManagedDomain) (reset : Bool) : Act Rehearsal RenewOutcome :=
  fun world => do
    let (script, rest) := Script.next domain.name world.scripts
    let world ← { world with scripts := rest }.advance script.took
    return (script.outcome, world.after (.attempted domain reset script.outcome script.took))

def execute (words : List String) : Act Rehearsal (Except LaunchError (Option Int)) :=
  fun world =>
    let answer := world.runner world.moment words
    .ok (answer, world.after (.executed words answer))

def note (event : Event) : Act Rehearsal Unit :=
  fun world => do
    let entries ← event.entries world.kept
    return ((), entries.foldl (fun world entry => world.after (.noted entry)) world)

def host : Host Rehearsal where
  now := now
  loadJob := loadJob
  saveJob := saveJob
  loadCredential := loadCredential
  purge := purge
  listNames := listNames
  attempt := attempt
  execute := execute
  note := note

end Rehearsal
end RenewalDrive
