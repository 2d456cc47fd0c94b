import RenewalDrive.CommandLine.Arguments
import RenewalDrive.Daemon.Run
import RenewalDrive.Report.Status

/-!
# Running a command line

A request is run on a site. The answer is an exit code, a text for the output, and a
text for the complaints.
-/

namespace RenewalDrive
namespace CommandLine

structure Surroundings where
  directory : Path
  environment : String -> Option String

structure Response where
  exitCode : Nat
  output : String := ""
  complaint : String := ""
deriving DecidableEq

namespace Response

def ofRefusal (refusal : Refusal) : Response :=
  if refusal = .help then { exitCode := 0, output := refusal.message ++ "\n" }
  else { exitCode := 2, complaint := refusal.message }

def failure (complaint : String) : Response :=
  { exitCode := 1, complaint := complaint }

end Response

/-! ## Requests -/

def configDirectory (surroundings : Surroundings) : Option Route :=
  match (surroundings.environment "XDG_CONFIG_HOME").filter Route.isAbsolute with
  | some directory => some (.ofText surroundings.directory directory)
  | none =>
      ((surroundings.environment "HOME").filter (· ≠ "")).map fun home =>
        (Route.ofText surroundings.directory home).child ".config"

/-- The configuration file: the one of the request, or the default one. -/
def configFile (request : Request) (surroundings : Surroundings) : Except ConfigError Route :=
  match request.config with
  | some file => .ok (.ofText surroundings.directory file)
  | none =>
      match configDirectory surroundings with
      | some directory => .ok ((directory.child "mdrive").child "config.json")
      | none => .error .noDirectory

abbrev Step := ExceptT String (Act Site)

namespace Step

def ofResult {ε α : Type} (message : ε -> String) : Except ε α -> Step α
  | .ok value => pure value
  | .error error => throw (message error)

def onTree {ε α : Type} (message : ε -> String) (act : ExceptT ε (StateM Tree) α) : Step α := do
  ofResult message (← liftM (Site.onTree act))

end Step

def status (config : Config) (store : FileStore) : Step String := do
  let now := (← get).clock
  let registry ← Step.onTree (ConfigError.message ∘ .store)
    (config.registry store.loadCredential now)
  let rows ← Step.onTree (fun error => "failed to read drive state: " ++ StoreError.message error)
    (StatusRow.collect registry store.loadJob now)
  return StatusRow.table rows now

def reset (store : FileStore) (domain : String) : Step String := do
  let host := Site.host store ⟨[], store⟩
  let complaint (error : StoreError) : String :=
    "failed to reset " ++ domain ++ ": " ++ error.nestedMessage
  Step.ofResult complaint (← liftM (host.resetDomain domain))
  return "reset drive state of " ++ domain ++ "\n"

def daemon (config : Config) (store : FileStore) (lastTurn : Nat) : Step String := do
  Step.ofResult DaemonError.message (← liftM (Daemon.run config store lastTurn))
  return ""

def storeOf (request : Request) (config : Config) (directory : Path) :
    Except ConfigError FileStore := do
  return ⟨.ofText directory (← config.storeDirectoryWith request.storeDirectory)⟩

def prepare (request : Request) (surroundings : Surroundings) : Step (Config × FileStore) := do
  let file ← Step.ofResult ConfigError.message (configFile request surroundings)
  let config ← Step.onTree ConfigError.message (ExceptT.mk (Config.load file))
  let store ← Step.ofResult ConfigError.message (storeOf request config surroundings.directory)
  return (config, store)

def perform (request : Request) (surroundings : Surroundings) (lastTurn : Nat) : Step String := do
  let (config, store) ← prepare request surroundings
  match request.command with
  | .daemon => daemon config store lastTurn
  | .status => status config store
  | .reset domain => reset store domain

/-- Runs a command line. A daemon is interrupted during the given regular call. -/
def run (words : List String) (surroundings : Surroundings) (lastTurn : Nat) (site : Site) :
    Response × Site :=
  match Request.ofWords words surroundings.environment with
  | .error refusal => (.ofRefusal refusal, site)
  | .ok request =>
      match (perform request surroundings lastTurn).run site with
      | .ok (.ok output, site) => ({ exitCode := 0, output := output }, site)
      | .ok (.error complaint, site) => (.failure complaint, site)
      | .error _ => (.failure "the drive halted", site)

/-! ## Files of a request -/

/-- The files where a status table looks for the records of a domain. -/
def recordFiles (store : FileStore) (name : String) : List Route :=
  ((store.entryRoute .domains name).toOption.map (·.child credentialFileName)).toList ++
    ((store.entryRoute .staging name).toOption.map (·.child jobFileName)).toList

/-- What a request looks at beside its configuration file, which the site has to
hold. -/
def files (request : Request) (surroundings : Surroundings) (site : Site) : List Route :=
  match (prepare request surroundings).run site with
  | .ok (.ok (config, store), _) =>
      match request.command with
      | .daemon => []
      | .status => config.domains.flatMap fun entry => recordFiles store entry.name
      | .reset domain =>
          [Group.staging, .challenges].filterMap fun group =>
            (store.entryRoute group domain).toOption
  | _ => []

end CommandLine
end RenewalDrive
