import RenewalDrive.Store.Basic

/-!
# Routes

A path is the list of names from the root of a file tree. A route is how somebody
names a file: a text whose steps begin at the root or at a directory of one's choice,
and may stay where they are or lead back up. Where a route leads depends on the tree,
because each of its steps needs a directory to start from.
-/

namespace RenewalDrive

/-- The names on the way from the root. -/
abbrev Path := List String

structure Route where
  /-- The directory where the route begins. -/
  start : Path
  /-- What stands between the slashes of its text. -/
  steps : List String
deriving DecidableEq

namespace Route

/-- A step that stays where it is: nothing, or a dot. -/
def isIdle (step : String) : Bool :=
  step = "" || step = "."

/-! ## Texts -/

def pieces : List Char -> List (List Char)
  | [] => [[]]
  | c :: rest =>
      if c = '/' then [] :: pieces rest
      else
        match pieces rest with
        | [] => [[c]]
        | first :: others => (c :: first) :: others

def isAbsolute (text : String) : Bool :=
  text.toList.head? = some '/'

/-- The route that a text names for somebody in a directory. -/
def ofText (directory : Path) (text : String) : Route where
  start := if isAbsolute text then [] else directory
  steps := (pieces text.toList).map String.ofList

def text (route : Route) : String :=
  String.intercalate "/" route.steps

/-- The route with one more name; a slash at the end of its text is not doubled. -/
def child (route : Route) (name : String) : Route :=
  if route.steps.getLast? = some "" then { route with steps := route.steps.dropLast ++ [name] }
  else { route with steps := route.steps ++ [name] }

/-! ## Limits -/

/-- The longest text of a route in bytes that a file system takes. -/
def limit : Nat := 4095

/-- Why a file system refuses a route without looking for it. -/
def fault? (route : Route) : Option FileError :=
  if route.text.toList.contains '\x00' then some .zeroCharacter
  else if route.text = "" then some .notFound
  else if limit < route.text.utf8ByteSize then some .nameTooLong
  else none

end Route
end RenewalDrive
