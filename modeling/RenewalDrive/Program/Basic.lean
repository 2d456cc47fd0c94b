import RenewalDrive.Store.Tree

/-!
# Programs

Programs are started with words and variables, may change the file tree, and end with
a code or by a signal.
-/

namespace RenewalDrive

/-! ## Ends -/

inductive ProgramEnd where
  | exited (code : Nat)
  | killed (signal : Nat)
deriving DecidableEq

namespace ProgramEnd

def signalNames : List (Nat × String) :=
  [(1, "SIGHUP"), (2, "SIGINT"), (3, "SIGQUIT"), (4, "SIGILL"), (5, "SIGTRAP"), (6, "SIGABRT"),
    (7, "SIGBUS"), (8, "SIGFPE"), (9, "SIGKILL"), (10, "SIGUSR1"), (11, "SIGSEGV"),
    (12, "SIGUSR2"), (13, "SIGPIPE"), (14, "SIGALRM"), (15, "SIGTERM"), (16, "SIGSTKFLT"),
    (17, "SIGCHLD"), (18, "SIGCONT"), (19, "SIGSTOP"), (20, "SIGTSTP"), (21, "SIGTTIN"),
    (22, "SIGTTOU"), (23, "SIGURG"), (24, "SIGXCPU"), (25, "SIGXFSZ"), (26, "SIGVTALRM"),
    (27, "SIGPROF"), (28, "SIGWINCH"), (29, "SIGIO"), (30, "SIGPWR"), (31, "SIGSYS")]

def message : ProgramEnd -> String
  | .exited code => "exit status: " ++ Text.naturalText code
  | .killed signal =>
      "signal: " ++ Text.naturalText signal ++
        match signalNames.lookup signal with
        | some name => " (" ++ name ++ ")"
        | none => ""

def isSuccess (ending : ProgramEnd) : Bool :=
  ending = .exited 0

/-- The exit code; a program that was killed has none. -/
def code? : ProgramEnd -> Option Int
  | .exited code => some code
  | .killed _ => none

end ProgramEnd

/-! ## Starts -/

inductive LaunchError where
  /-- There are no words, not even the name of a program. -/
  | emptyCommand
  /-- A word holds a character that no word may hold. -/
  | zeroCharacter
  | file (error : FileError)
deriving DecidableEq

def LaunchError.message : LaunchError -> String
  | .emptyCommand => "empty command line"
  | .zeroCharacter => "nul byte found in provided data"
  | .file error => error.message

structure Launch where
  words : List String
  environment : List (String × String) := []
deriving DecidableEq

/-- Why a start cannot succeed, whatever the program. -/
def Launch.fault? (launch : Launch) : Option LaunchError :=
  if launch.words = [] then some .emptyCommand
  else if launch.words.any fun word => word.toList.contains '\x00' then some .zeroCharacter
  else none

structure ProgramRun where
  ending : ProgramEnd
  output : List UInt8
  complaints : List UInt8

abbrev Programs := Launch -> Tree -> Except LaunchError (ProgramRun × Tree)

def Programs.start (programs : Programs) (launch : Launch) :
    ExceptT LaunchError (StateM Tree) ProgramRun :=
  fun tree =>
    match launch.fault? with
    | some error => (.error error, tree)
    | none =>
        match programs launch tree with
        | .ok (run, tree) => (.ok run, tree)
        | .error error => (.error error, tree)

end RenewalDrive
