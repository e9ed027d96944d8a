/-
A tree of files as a program sees it from its working directory.

A place is the way down from the working directory; it may begin by going up, or at the root. `locate` finds the place that
a path names, step by step: every step but the last must lead into a directory. Names and whole paths have a greatest length
in bytes.
-/
import CfgMembership.Source.File

namespace CfgMembership

/-- the names on the way to a node -/
abbrev Place := List String

/-- what lies at which place -/
structure Files where
  entries : List (Place × Node) := []
  deriving Repr

namespace Files

/-- whether a place is the working directory, a directory above it, or the root -/
def isOutside (place : Place) : Bool := place.all (· == "..") || place == ["/"]

def at? (files : Files) (place : Place) : Option Node :=
  if isOutside place then some .directory else files.entries.lookup place

def put (files : Files) (place : Place) (node : Node) : Files :=
  ⟨(place, node) :: files.entries.filter (·.1 != place)⟩

/-- the place one step from another -/
def enter (place : Place) (step : String) : Place :=
  if step = "" ∨ step = "." then place
  else if step = ".." then
    match place.getLast? with
    | none | some ".." => place ++ [".."]
    | some "/" => place
    | some _ => place.dropLast
  else place ++ [step]

/-- the parts of a path between its slashes -/
def split : List Char → List (List Char)
  | [] => [[]]
  | c :: rest =>
    if c = '/' then [] :: split rest
    else
      match split rest with
      | [] => [[c]]
      | part :: parts => (c :: part) :: parts

def steps (path : String) : List String := (split path.toList).map String.ofList

/-- where a path sets out -/
def origin (path : String) : Place := if path.toList.head? = some '/' then ["/"] else []

def nameLimit : Nat := 255

def pathLimit : Nat := 4095

/-- what is wrong with a path whatever the files are -/
def pathFault? (path : String) : Option IoError :=
  if path = "" then some .notFound
  else if path.toList.contains '\x00' then some .nulInName
  else if pathLimit < path.utf8ByteSize then some .nameTooLong
  else none

def walk (files : Files) (place : Place) : List String → Except IoError Place
  | [] => .ok place
  | step :: rest =>
    match files.at? place with
    | none => .error .notFound
    | some (.file _) => .error .notDirectory
    | some .directory =>
      if nameLimit < step.utf8ByteSize then .error .nameTooLong else walk files (enter place step) rest

def locate (files : Files) (path : String) : Except IoError Place :=
  match pathFault? path with
  | some error => .error error
  | none => files.walk (origin path) (steps path)

def find (files : Files) (path : String) : Except IoError Node :=
  match files.locate path with
  | .error error => .error error
  | .ok place =>
    match files.at? place with
    | none => .error .notFound
    | some node => .ok node

def readText (files : Files) (path : String) : Except IoError String :=
  match files.find path with
  | .error error => .error error
  | .ok .directory => .error .isDirectory
  | .ok (.file content) =>
    match decodeText? content with
    | none => .error .invalidText
    | some text => .ok text

/-! ## Names and directories above them -/

/-- whether a step leads nowhere -/
def isIdle (step : String) : Bool := step = "" || step = "."

/-- the steps of a path without those that lead nowhere -/
def properSteps (path : String) : List String := (steps path).filter (!isIdle ·)

/-- the path of the directory that the last name of a path is in, empty when that is where the path sets out -/
def parent (path : String) : String :=
  let above := (((steps path).reverse.dropWhile isIdle).drop 1).dropWhile isIdle
  "/".intercalate above.reverse

/-! ## Appending -/

def append (files : Files) (place : Place) (bytes : List UInt8) : Files :=
  match files.at? place with
  | some (.file content) => files.put place (.file (content ++ bytes))
  | _ => files

end Files

end CfgMembership
