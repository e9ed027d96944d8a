/-
Sources of lines. A source is opened before the first line is read and closed after the last; each read gives a line
without its terminator, or says why there is none.
-/
namespace CfgMembership

/-- what a device reports, in words -/
structure IoError where
  message : String
  deriving DecidableEq, Repr

namespace IoError

def notFound : IoError := ⟨"No such file or directory (os error 2)"⟩

def notDirectory : IoError := ⟨"Not a directory (os error 20)"⟩

def isDirectory : IoError := ⟨"Is a directory (os error 21)"⟩

def alreadyExists : IoError := ⟨"File exists (os error 17)"⟩

def nameTooLong : IoError := ⟨"File name too long (os error 36)"⟩

def nulInName : IoError := ⟨"file name contained an unexpected NUL byte"⟩

def invalidText : IoError := ⟨"stream did not contain valid UTF-8"⟩

/-- a write took nothing of what was left -/
def writeZero : IoError := ⟨"failed to write whole buffer"⟩

end IoError

inductive SourceError where
  | endOfInput
  | notOpen
  | io (error : IoError)
  deriving DecidableEq, Repr

namespace SourceError

def message : SourceError → String
  | .endOfInput => "end of file reached"
  | .notOpen => "Source read before being opened"
  | .io error => "IO error: " ++ error.message

/-- the messages of the errors behind this one, the nearest first -/
def causes : SourceError → List String
  | .io error => [error.message]
  | _ => []

end SourceError

/-- what a source can do; each operation also gives the source after it -/
class LineSource (ς : Type) where
  start : ς → Except SourceError Unit × ς
  nextLine : ς → Except SourceError String × ς
  finish : ς → ς

/-- a source that keeps the lines it has given -/
structure RecordedSource (ς : Type) where
  source : ς
  given : Array String := #[]

instance {ς : Type} [LineSource ς] : LineSource (RecordedSource ς) where
  start s :=
    let (result, source) := LineSource.start s.source
    (result, { s with source })
  nextLine s :=
    match LineSource.nextLine s.source with
    | (.error error, source) => (.error error, { s with source })
    | (.ok line, source) => (.ok line, ⟨source, s.given.push line⟩)
  finish s := { s with source := LineSource.finish s.source }

end CfgMembership
