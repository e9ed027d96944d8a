/-
Files that grow while they are read.

A file is read in pieces of a fixed size. A new piece is read only when the last one is used up, and then holds what the file
holds at that time. Each line that is read may bring about a reply, which is added at the end of the file.
-/
import CfgMembership.Source.File

namespace CfgMembership

/-- an open file that grows: all of its content, how much of that has been read, what has been read and not been used, how
many lines have been given, and the reply to a line with a number, counted from 0 -/
structure GrowingSource where
  content : ByteArray
  position : Nat := 0
  piece : List UInt8 := []
  given : Nat := 0
  reply : Nat → String → ByteArray

namespace GrowingSource

/-- how many bytes a piece has at most -/
def pieceSize : Nat := 8192

def refill (s : GrowingSource) : GrowingSource :=
  let position := min (s.position + pieceSize) s.content.size
  { s with position, piece := (s.content.extract s.position position).data.toList }

/-- the bytes up to the end of the line, or of the file as it is now, after those before -/
def takeLine (s : GrowingSource) (before : List UInt8) : List UInt8 × GrowingSource :=
  match Text.cutAfter (· == 10) s.piece with
  | (front, rest) =>
    if front.getLast? = some 10 then (before ++ front, { s with piece := rest })
    else if s.position < s.content.size then s.refill.takeLine (before ++ front)
    else (before ++ front, { s with piece := [] })
termination_by s.content.size - s.position
decreasing_by
  simp only [refill, pieceSize]
  omega

/-- gives a line; the file then holds the reply to it -/
def nextLine (s : GrowingSource) : Except SourceError String × GrowingSource :=
  match s.takeLine [] with
  | ([], s) => (.error .endOfInput, s)
  | (bytes, s) =>
    match lineOfBytes bytes with
    | .error error => (.error error, s)
    | .ok line => (.ok line, { s with content := s.content ++ s.reply s.given line, given := s.given + 1 })

instance : LineSource GrowingSource where
  start s := (.ok (), { s with position := 0, piece := [] })
  nextLine := nextLine
  finish s := s

end GrowingSource

end CfgMembership
