import RenewalDrive.Store.Route

/-!
# File trees

A tree of directories and files without links, and the operations of a file system
on it. An operation is told by a route where to act. It either succeeds or fails with
an error of the file system; what it did before it failed stays done.
-/

namespace RenewalDrive

inductive Node where
  | directory
  | file (content : List UInt8)
deriving DecidableEq

/-- A file tree: what stands at each of its paths, the root apart. -/
structure Tree where
  nodes : List (Path × Node)

namespace Tree

def empty : Tree := ⟨[]⟩

/-- What stands at a path; the root is a directory. -/
def get? (tree : Tree) (path : Path) : Option Node :=
  if path = [] then some .directory else tree.nodes.lookup path

def put (tree : Tree) (path : Path) (node : Node) : Tree :=
  ⟨(path, node) :: tree.nodes.filter fun entry => entry.1 ≠ path⟩

def without (tree : Tree) (path : Path) : Tree :=
  ⟨tree.nodes.filter fun entry => ¬ path.isPrefixOf entry.1⟩

/-- The longest name in bytes that a file system takes. -/
def nameLimit : Nat := 255

/-- The path that the given steps lead to from a directory. All steps but the last need
a directory to go on from; nothing has to stand at the last. -/
def follow (tree : Tree) (here : Path) : List String -> Except FileError Path
  | [] => .ok here
  | step :: rest =>
      if Route.isIdle step then tree.follow here rest
      else if step = ".." then tree.follow here.dropLast rest
      else if nameLimit < step.utf8ByteSize then .error .nameTooLong
      else if rest = [] then .ok (here ++ [step])
      else
        match tree.get? (here ++ [step]) with
        | none => .error .notFound
        | some (.file _) => .error .notDirectory
        | some .directory => tree.follow (here ++ [step]) rest

def reach (tree : Tree) (route : Route) : Except FileError Path :=
  match route.fault? with
  | some error => .error error
  | none => tree.follow route.start route.steps

def find (tree : Tree) (route : Route) : Except FileError Node := do
  match tree.get? (← tree.reach route) with
  | some node => .ok node
  | none => .error .notFound

def isDirectory (tree : Tree) (route : Route) : Bool :=
  match tree.find route with
  | .ok .directory => true
  | _ => false

def childDirectories (tree : Tree) (path : Path) : List String :=
  tree.nodes.filterMap fun entry =>
    match entry.2, entry.1.getLast? with
    | .directory, some name => if entry.1 = path ++ [name] then some name else none
    | _, _ => none

end Tree

/-! ## Operations -/

abbrev FileAct := ExceptT FileError (StateM Tree)

namespace FileAct

def reach (route : Route) : FileAct Path := do
  match (← get).reach route with
  | .ok path => return path
  | .error error => throw error

def find (route : Route) : FileAct Node := do
  match (← get).find route with
  | .ok node => return node
  | .error error => throw error

def makeDirectory (route : Route) : FileAct Unit := do
  let path ← reach route
  match (← get).get? path with
  | some _ => throw .alreadyExists
  | none => modify (·.put path .directory)

def ensureDirectory (route : Route) : FileAct Unit :=
  tryCatch (makeDirectory route) fun error => do
    if ¬ (← get).isDirectory route then throw error

/-- Makes a directory and the missing ones on the way to it. The steps are given with
the last one first. -/
def makeDirectoriesUp (start : Path) : List String -> FileAct Unit
  | [] => return
  | step :: outer =>
      if Route.isIdle step then makeDirectoriesUp start outer
      else
        let route : Route := ⟨start, (step :: outer).reverse⟩
        tryCatch (makeDirectory route) fun error => do
          if error = .notFound then
            makeDirectoriesUp start outer
            ensureDirectory route
          else if ¬ (← get).isDirectory route then throw error

def makeDirectories (route : Route) : FileAct Unit :=
  makeDirectoriesUp route.start route.steps.reverse

def readBytes (route : Route) : FileAct (List UInt8) := do
  match ← find route with
  | .directory => throw .isDirectory
  | .file content => return content

def readText (route : Route) : FileAct String := do
  let content ← readBytes route
  match String.fromUTF8? ⟨content.toArray⟩ with
  | some text => return text
  | none => throw .notText

/-- Makes an empty file, or empties the one that is there. -/
def createFile (route : Route) : FileAct Unit := do
  let path ← reach route
  match (← get).get? path with
  | some .directory => throw .isDirectory
  | _ => modify (·.put path (.file []))

def appendBytes (route : Route) (bytes : List UInt8) : FileAct Unit := do
  let path ← reach route
  let content ← readBytes route
  modify (·.put path (.file (content ++ bytes)))

/-- Moves a file to the end of another route, in place of a file that is there. -/
def renameFile (source target : Route) : FileAct Unit := do
  let content ← readBytes source
  let old ← reach source
  let new ← reach target
  match (← get).get? new with
  | some .directory => throw .isDirectory
  | _ => modify fun tree => (tree.without old).put new (.file content)

def removeDirectory (route : Route) : FileAct Unit := do
  let path ← reach route
  match ← find route with
  | .directory => modify (·.without path)
  | .file _ => throw .notDirectory

/-- The names of the directories in a directory, in no particular order. -/
def listDirectories (route : Route) : FileAct (List String) := do
  let path ← reach route
  match ← find route with
  | .directory => return (← get).childDirectories path
  | .file _ => throw .notDirectory

end FileAct
end RenewalDrive
