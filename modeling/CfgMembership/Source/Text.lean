/-
A text as a source of its lines. It needs no opening; opening goes back to the first line.
-/
import CfgMembership.Text.Line
import CfgMembership.Source.Basic

namespace CfgMembership

/-- all lines of a text, and those not yet read -/
structure TextSource where
  lines : List String
  unread : List String
  deriving DecidableEq, Repr

namespace TextSource

def ofText (text : String) : TextSource :=
  let lines := (Text.lines text.toList).map String.ofList
  ⟨lines, lines⟩

instance : LineSource TextSource where
  start s := (.ok (), { s with unread := s.lines })
  nextLine s :=
    match s.unread with
    | [] => (.error .endOfInput, s)
    | line :: rest => (.ok line, { s with unread := rest })
  finish s := s

end TextSource

end CfgMembership
