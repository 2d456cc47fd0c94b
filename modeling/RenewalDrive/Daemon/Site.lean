import RenewalDrive.Drive.Context
import RenewalDrive.Program.Renew

/-!
# Sites

A site is a world with a file tree and programs. Its host keeps the records of a drive
in a file store, renews with a command, and runs the notify command as a program.
-/

namespace RenewalDrive

structure Site where
  tree : Tree
  clock : Instant
  programs : Programs
  /-- The level of the log, if one is kept. -/
  kept : Option LogLevel
  /-- The log, the last entry first. -/
  log : List LogEntry

namespace Site

/-- Keeps an event in the log if its level asks for it. -/
def note (event : Event) : Act Site Unit :=
  fun site => do
    let entries ← event.entries site.kept
    return ((), { site with log := entries.reverse ++ site.log })

def onTree {ε α : Type} (act : ExceptT ε (StateM Tree) α) : Act Site (Except ε α) :=
  fun site =>
    let (result, tree) := act site.tree
    .ok (result, { site with tree := tree })

def purge (store : FileStore) (group : Group) (name : String) :
    Act Site (Except StoreError Unit) := do
  match ← onTree (store.purge group name) with
  | .error error => return .error error
  | .ok existed =>
      if existed then note (.entryPurged group name)
      return .ok ()

/-- Makes an attempt with a command; a fault fails it. -/
def attempt (command : RenewCommand) (domain : ManagedDomain) (reset : Bool) :
    Act Site RenewOutcome := do
  let programs := (← get).programs
  match ← onTree (command.attempt programs domain.name reset) with
  | .ok outcome =>
      note (.renewReported domain.name)
      return outcome
  | .error fault =>
      note (.renewCommandFailed domain.name fault.message)
      return .failed fault.message

def execute (words : List String) : Act Site (Except LaunchError (Option Int)) := do
  let programs := (← get).programs
  return (← onTree (programs.start ⟨words, []⟩)).map fun run => run.ending.code?

/-- The host of a drive that keeps its records in a store and renews with a command. -/
def host (store : FileStore) (command : RenewCommand) : Host Site where
  now := return (← get).clock
  loadJob name := onTree (store.loadJob name)
  saveJob name record := onTree (store.saveJob name record)
  loadCredential name := onTree (store.loadCredential name)
  purge := purge store
  listNames group := onTree (store.listNames group)
  attempt := attempt command
  execute := execute
  note := note

end Site
end RenewalDrive
