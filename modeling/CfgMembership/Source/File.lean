/-
Files and standard input as sources of lines.

Bytes are cut after each line feed byte and each piece is decoded by itself, so a line that is not UTF-8 is an error of its
own and the next read goes on after it. A directory can be opened, but every read of it fails.
-/
import CfgMembership.Text.Line
import CfgMembership.Source.Basic

namespace CfgMembership

inductive Node where
  | file (content : List UInt8)
  | directory
  deriving DecidableEq, Repr

def decodeText? (bytes : List UInt8) : Option String :=
  String.fromUTF8? bytes.toByteArray

/-- an open node, with what is left to read of a file -/
inductive Handle where
  | file (unread : List UInt8)
  | directory
  deriving DecidableEq, Repr

def Handle.ofNode : Node → Handle
  | .file content => .file content
  | .directory => .directory

def lineOfBytes (piece : List UInt8) : Except SourceError String :=
  match decodeText? piece with
  | none => .error (.io .invalidText)
  | some text => .ok (String.ofList (Text.stripTerminator text.toList))

def Handle.nextLine : Handle → Except SourceError String × Handle
  | .directory => (.error (.io .isDirectory), .directory)
  | .file [] => (.error .endOfInput, .file [])
  | .file unread =>
    let (piece, rest) := Text.cutAfter (· == 10) unread
    (lineOfBytes piece, .file rest)

/-- a file by its path: what opening the path finds now, and the handle if it has been opened -/
structure FileSource where
  disk : Except IoError Node
  handle : Option Handle := none
  deriving Repr

namespace FileSource

/-- the path leads nowhere from now on; an open handle still reads on -/
def remove (s : FileSource) : FileSource := { s with disk := .error .notFound }

instance : LineSource FileSource where
  start s :=
    match s.disk with
    | .error error => (.error (.io error), s)
    | .ok node => (.ok (), { s with handle := some (.ofNode node) })
  nextLine s :=
    match s.handle with
    | none => (.error .notOpen, s)
    | some handle =>
      let (line, handle) := handle.nextLine
      (line, { s with handle := some handle })
  finish s := { s with handle := none }

end FileSource

/-- standard input: always open -/
structure ConsoleSource where
  handle : Handle
  deriving Repr

instance : LineSource ConsoleSource where
  start s := (.ok (), s)
  nextLine s :=
    let (line, handle) := s.handle.nextLine
    (line, ⟨handle⟩)
  finish s := s

end CfgMembership
