/-!
# Command-line arguments

A command line is a command with two options, each of which may stand before or behind
the name of the command. An option given behind the name counts before one in front of
it, and both count before the variable of the same meaning.
-/

namespace RenewalDrive
namespace CommandLine

inductive Command where
  /-- Drive the domains until interrupted. -/
  | daemon
  /-- Show the stored state of every domain. -/
  | status
  /-- Drop what the drive of a domain made so far. -/
  | reset (domain : String)
deriving DecidableEq

structure Request where
  config : Option String
  storeDirectory : Option String
  command : Command
deriving DecidableEq

inductive Refusal where
  | help
  | unknownOption (word : String)
  | noValue (option : String)
  | repeatedOption (option : String)
  | unknownCommand (word : String)
  | noCommand
  | noDomain
  | unexpected (word : String)
deriving DecidableEq

def Refusal.message : Refusal -> String
  | .help =>
      "usage: [--config <file>] [--store-dir <directory>] (daemon | status | reset <domain>)"
  | .unknownOption word => "unknown option " ++ word
  | .noValue option => "no value for " ++ option
  | .repeatedOption option => "repeated option " ++ option
  | .unknownCommand word => "unknown command " ++ word
  | .noCommand => "no command"
  | .noDomain => "no domain to reset"
  | .unexpected word => "unexpected argument " ++ word

/-! ## Options -/

inductive OptionName where
  | config
  | storeDirectory
deriving DecidableEq

namespace OptionName

def word : OptionName -> String
  | .config => "--config"
  | .storeDirectory => "--store-dir"

/-- The variable of the same meaning. -/
def variableName : OptionName -> String
  | .config => "MDRIVE_CONFIG"
  | .storeDirectory => "MDRIVE_STORE_DIR"

def byWord : List (String × OptionName) :=
  [OptionName.config, .storeDirectory].map fun option => (option.word, option)

end OptionName

/-- The options given on one side of the name of the command. -/
abbrev Given := OptionName -> Option String

def give (given : Given) (option : OptionName) (value : String) : Except Refusal Given :=
  if value = "" then .error (.noValue option.word)
  else if (given option).isSome then .error (.repeatedOption option.word)
  else .ok fun o => if o = option then some value else given o

/-! ## Words -/

inductive Word where
  /-- All words behind it are plain. -/
  | separator
  /-- An option, perhaps with a value behind an equals sign. -/
  | option (word : String) (value : Option String)
  | help
  /-- A word that begins like an option, but is none. -/
  | dash (word : String)
  | plain (word : String)
deriving DecidableEq

/-- The name of an option and the value behind an equals sign. -/
def splitOption (cs : List Char) : String × Option String :=
  let name := cs.takeWhile (· ≠ '=')
  (String.ofList name,
    match cs.drop name.length with
    | [] => none
    | _ :: value => some (String.ofList value))

def Word.ofString (word : String) : Word :=
  match word.toList with
  | ['-', '-'] => .separator
  | '-' :: '-' :: _ =>
      if word = "--help" then .help
      else
        let (name, value) := splitOption word.toList
        .option name value
  | '-' :: 'h' :: _ => .help
  | '-' :: _ :: _ => .dash word
  | _ => .plain word

/-! ## Reading -/

/-- What was read of a command line: the name of the command, if it was met, the plain
words behind it, and the options on both sides. -/
structure Draft where
  name : Option String
  arguments : List String
  front : Given
  back : Given

/-- The names of the commands, the one that asks for help apart. -/
def commandNames : List String :=
  ["daemon", "status", "reset"]

/-- Why a request for help is none that can be run: it asks for help with the words
behind it, which have to be the name of one command at most. -/
def helpRefusal (words : List String) : Refusal :=
  match words with
  | [] => .help
  | word :: rest =>
      if (commandNames ++ ["help"]).contains word then
        match rest with
        | [] => .help
        | other :: _ => .unknownCommand other
      else .unknownCommand word

def Draft.addPlain (draft : Draft) (afterSeparator : Bool) (word : String) :
    Except Refusal Draft :=
  match draft.name with
  | some "reset" =>
      if draft.arguments = [] then .ok { draft with arguments := [word] }
      else .error (.unexpected word)
  | some _ => .error (.unexpected word)
  | none =>
      if afterSeparator then .error (.unexpected word)
      else if commandNames.contains word then
        .ok { draft with name := some word }
      else .error (.unknownCommand word)

def Draft.addOption (draft : Draft) (option : OptionName) (value : String) :
    Except Refusal Draft := do
  if draft.name.isSome then return { draft with back := ← give draft.back option value }
  else return { draft with front := ← give draft.front option value }

def readWords (afterSeparator : Bool) (draft : Draft) : List String -> Except Refusal Draft
  | [] => .ok draft
  | word :: rest =>
      if afterSeparator then
        match draft.addPlain true word with
        | .error refusal => .error refusal
        | .ok draft => readWords true draft rest
      else
        match Word.ofString word with
        | .separator => readWords true draft rest
        | .help => .error .help
        | .dash word => .error (.unknownOption word)
        | .plain word =>
            if draft.name = none ∧ word = "help" then .error (helpRefusal rest)
            else
              match draft.addPlain false word with
              | .error refusal => .error refusal
              | .ok draft => readWords false draft rest
        | .option name value =>
            match OptionName.byWord.lookup name with
            | none => .error (.unknownOption name)
            | some option =>
                match value with
                | some value =>
                    match draft.addOption option value with
                    | .error refusal => .error refusal
                    | .ok draft => readWords false draft rest
                | none =>
                    match rest with
                    | [] => .error (.noValue name)
                    | value :: rest =>
                        match Word.ofString value with
                        | .plain value =>
                            match draft.addOption option value with
                            | .error refusal => .error refusal
                            | .ok draft => readWords false draft rest
                        | _ => .error (.noValue name)

/-- The value of an option, with the variable of the same meaning in third place. A
variable that is set to nothing is refused unless both sides give the option. -/
def Draft.value (draft : Draft) (environment : String -> Option String) (option : OptionName) :
    Except Refusal (Option String) :=
  match environment option.variableName, draft.back option, draft.front option with
  | _, some back, some _ => .ok (some back)
  | some "", _, _ => .error (.noValue option.word)
  | given, back, front => .ok (back <|> front <|> given)

def Draft.command (draft : Draft) : Except Refusal Command :=
  match draft.name, draft.arguments with
  | some "daemon", _ => .ok .daemon
  | some "status", _ => .ok .status
  | some "reset", domain :: _ => .ok (.reset domain)
  | some "reset", [] => .error .noDomain
  | _, _ => .error .noCommand

def Request.ofWords (words : List String) (environment : String -> Option String) :
    Except Refusal Request := do
  let draft ← readWords false ⟨none, [], fun _ => none, fun _ => none⟩ words
  let command ← draft.command
  let config ← draft.value environment .config
  let storeDirectory ← draft.value environment .storeDirectory
  return ⟨config, storeDirectory, command⟩

end CommandLine
end RenewalDrive
