/-
Opening a log file.

A file is made where it is missing, and so are the directories above it. Some paths lead to devices instead.
-/
import CfgMembership.CommandLine.Libraries

namespace CfgMembership

namespace Files

/-- follows steps from a place and makes the directories that are missing on the way -/
def makeDirectories (files : Files) (place : Place) : List String → Except IoError Files
  | [] => .ok files
  | step :: rest =>
    let place := enter place step
    if nameLimit < step.utf8ByteSize then .error .nameTooLong
    else
      match files.at? place with
      | none => (files.put place .directory).makeDirectories place rest
      | some .directory => files.makeDirectories place rest
      | some (.file _) => .error (if rest.isEmpty then .alreadyExists else .notDirectory)

def makeParents (files : Files) (path : String) : Except IoError Files :=
  if parent path = "" then .ok files
  else
    match pathFault? (parent path) with
    | some error => .error error
    | none => files.makeDirectories (origin path) (properSteps (parent path))

/-- a file to append to, which exists afterwards, and so do the directories above it -/
def openForAppending (files : Files) (path : String) : Except IoError (Place × Files) := do
  let files ← files.makeParents path
  if let some error := pathFault? path then throw error
  if path.toList.getLast? = some '/' then throw .isDirectory
  let place ← files.locate path
  match files.at? place with
  | some .directory => throw .isDirectory
  | some (.file _) => return (place, files)
  | none => return (place, files.put place (.file []))

end Files

namespace Standard

open CommandLine

/-- the devices that a log can be written to -/
def device? : String → Option Channel
  | "/dev/null" => some .elsewhere
  | "/dev/full" => some (.broken ⟨"No space left on device (os error 28)"⟩)
  | "/dev/stdin" => some .input
  | "/dev/stdout" => some .output
  | "/dev/stderr" => some .messages
  | _ => none

def openLog (files : Files) (path : String) : Except IoError (Channel × Files) :=
  match device? path with
  | some channel => .ok (channel, files)
  | none =>
    match files.openForAppending path with
    | .error error => .error error
    | .ok (place, files) => .ok (.file place, files)

end Standard

end CfgMembership
