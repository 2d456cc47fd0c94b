import RenewalDrive.CommandLine.Run
import Std.Time.DateTime.Timestamp

/-!
# The command

Runs a command line on the files of this computer: what the request looks at is read
into a file tree, the request is run on the tree, and what it removed from the tree is
removed from the disk. Nothing here starts programs, so a daemon is refused.
-/

namespace RenewalDrive
namespace CommandLine

def systemText (path : Path) : String :=
  "/" ++ String.intercalate "/" path

def fetchPath (tree : Tree) (path : Path) : IO Tree := do
  try
    let _ ← IO.FS.realPath (systemText path ++ "/.")
    return tree.put path .directory
  catch _ =>
    try
      let content ← IO.FS.readBinFile (systemText path)
      return tree.put path (.file content.toList)
    catch _ => return tree

def fetch (tree : Tree) (route : Route) : IO Tree :=
  (List.range route.steps.length).foldlM
    (fun tree count => do
      match tree.reach { route with steps := route.steps.take (count + 1) } with
      | .ok path => if (tree.get? path).isSome then return tree else fetchPath tree path
      | .error _ => return tree)
    tree

def wallClock : IO Instant := do
  let now ← Std.Time.Timestamp.now
  return (Instant.ofReading? now.toNanosecondsSinceUnixEpoch.val).getD .latest

def readEnvironment : IO (List (String × String)) :=
  ["MDRIVE_CONFIG", "MDRIVE_STORE_DIR", "XDG_CONFIG_HOME", "HOME"].filterMapM fun name => do
    return (← IO.getEnv name).map fun value => (name, value)

/-- Removes from the disk what a run removed from the tree. -/
def removeGone (before after : Tree) : IO Unit :=
  before.nodes.forM fun (path, _) => do
    if (after.get? path).isNone then IO.FS.removeDirAll (systemText path)

def answer (response : Response) : IO UInt32 := do
  (← IO.getStdout).putStr response.output
  if response.complaint ≠ "" then (← IO.getStderr).putStrLn ("Error: " ++ response.complaint)
  return response.exitCode.toUInt32

def runRequest (words : List String) (surroundings : Surroundings) (request : Request) :
    IO UInt32 := do
  let noPrograms : Programs := fun _ _ => .error (.file .notFound)
  let tree ← (configFile request surroundings).toOption.toList.foldlM fetch .empty
  let site : Site := ⟨tree, ← wallClock, noPrograms, none, []⟩
  let tree ← (files request surroundings site).foldlM fetch tree
  let (response, later) := run words surroundings 0 { site with tree := tree }
  removeGone tree later.tree
  answer response

end CommandLine
end RenewalDrive

open RenewalDrive CommandLine in
def main (words : List String) : IO UInt32 := do
  let environment ← readEnvironment
  let directory := (Route.ofText [] (toString (← IO.currentDir))).steps.filter (· ≠ "")
  let surroundings : Surroundings := ⟨directory, fun name => environment.lookup name⟩
  match Request.ofWords words surroundings.environment with
  | .error refusal => answer (.ofRefusal refusal)
  | .ok request =>
      if request.command = .daemon then answer (.failure "a daemon needs programs to start")
      else runRequest words surroundings request
