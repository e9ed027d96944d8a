/-
Where a reader stands in a YAML text.

A carriage return right before a line feed is passed over, and a text is over at its first null character. Any other carriage
return breaks a line as a line feed does, but only a line feed begins a new line as places are counted.
-/
namespace CfgMembership.Standard.Yaml

/-! ## Characters -/

def isSpace (c : Char) : Bool := c = ' ' || c = '\t'

def isBreak (c : Char) : Bool := c = '\n' || c = '\r'

/-- the characters that mean something inside brackets and braces -/
def isFlow (c : Char) : Bool := ",[]\x7b\x7d".toList.contains c

/-- the characters of a name -/
def isNameChar (c : Char) : Bool := c.isAlphanum || c = '-' || c = '_'

def hexValue? (c : Char) : Option Nat :=
  if c.isDigit then some (c.toNat - '0'.toNat)
  else if 'a' ≤ c && c ≤ 'f' then some (c.toNat - 'a'.toNat + 10)
  else if 'A' ≤ c && c ≤ 'F' then some (c.toNat - 'A'.toNat + 10)
  else none

/-- whether a text is at its end or goes on with a space or a line break -/
def atGap : List Char → Bool
  | [] => true
  | c :: _ => isSpace c || isBreak c

/-- whether a text goes on with the marker of a document's start or end -/
def atMarker (rest : List Char) : Bool :=
  (rest.take 3 == "---".toList || rest.take 3 == "...".toList) && atGap (rest.drop 3)

/-! ## Places -/

/-- a line and a column, both counted from 0 -/
structure Position where
  line : Nat := 0
  column : Nat := 0
  deriving DecidableEq, Repr

def Position.after (p : Position) (c : Char) : Position :=
  if c = '\n' then ⟨p.line + 1, 0⟩ else ⟨p.line, p.column + 1⟩

/-- what is left of a text, and where that begins -/
structure Spot where
  rest : List Char
  position : Position := {}
  deriving DecidableEq, Repr

namespace Spot

/-- adds a character to those read, in reverse; a line feed replaces the carriage return before it -/
def addLegible (read : List Char) (c : Char) : List Char :=
  if c = '\n' && read.head? = some '\r' then c :: read.drop 1 else c :: read

/-- the characters of a text that count -/
def legible (cs : List Char) : List Char := ((cs.takeWhile (· ≠ '\x00')).foldl addLegible []).reverse

def ofText (text : String) : Spot := { rest := legible text.toList }

def column (s : Spot) : Nat := s.position.column

/-- goes over as many characters, none of them a line feed -/
def skip (n : Nat) (s : Spot) : Spot := ⟨s.rest.drop n, { s.position with column := s.column + n }⟩

/-- reads characters while they pass a test, none of them a line feed -/
def takeWhile (p : Char → Bool) (s : Spot) : List Char × Spot :=
  let taken := s.rest.takeWhile p
  (taken, s.skip taken.length)

def skipSpaces (s : Spot) : Spot := (s.takeWhile isSpace).2

def skipLine (s : Spot) : Spot := (s.takeWhile (!isBreak ·)).2

/-- goes over spaces, a comment and a line break; nothing else may stand on the line -/
def endLine? (s : Spot) : Option Spot :=
  let s := s.skipSpaces
  let s := if s.rest.head? = some '#' then s.skipLine else s
  match s.rest with
  | [] => some s
  | c :: rest => if isBreak c then some ⟨rest, s.position.after c⟩ else none

end Spot

end CfgMembership.Standard.Yaml
