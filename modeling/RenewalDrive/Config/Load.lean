import RenewalDrive.Config.Json
import RenewalDrive.Store.Tree

/-!
# Loading configurations

A configuration is loaded from a file, and has to be valid. Errors name the file as
the caller named it.
-/

namespace RenewalDrive

inductive ConfigError where
  | unreadable (file : String) (error : FileError)
  | malformed (file : String) (fault : Json.Fault)
  | flawed (flaw : Config.Flaw)
  /-- No file was named, and there is no place for the default one. -/
  | noDirectory
  | noStore
  | store (error : StoreError)

def ConfigError.message : ConfigError -> String
  | .unreadable file error => "failed to read config file " ++ file ++ ": " ++ error.message
  | .malformed file fault => "invalid config file " ++ file ++ ": " ++ fault.message
  | .flawed flaw => flaw.message
  | .noDirectory => "no config directory on this system, pass --config"
  | .noStore => "no store directory configured, set store_dir or pass --store-dir"
  | .store error => error.nestedMessage

namespace Config

def validated (config : Config) : Except ConfigError Config :=
  match config.flaw? with
  | some flaw => .error (.flawed flaw)
  | none => .ok config

def ofContent (file : String) : Except FileError String -> Except ConfigError Config
  | .error error => .error (.unreadable file error)
  | .ok text =>
      match ofText text with
      | .error fault => .error (.malformed file fault)
      | .ok config => config.validated

def load (file : Route) : StateM Tree (Except ConfigError Config) := do
  return ofContent file.text (← (FileAct.readText file).run)

/-- The store directory: the one given beside the configuration, or its own. -/
def storeDirectoryWith (config : Config) (given : Option String) : Except ConfigError String :=
  match given <|> config.storeDirectory with
  | some directory => .ok directory
  | none => .error .noStore

end Config
end RenewalDrive
