/-
The tokens of a YAML text.

Most tokens are marks that stand in the text. Two are found from where others stand: a block begins before its first key or
item, and is over before the first token in a column further to the left. A key is known only by the colon after it, so the
place where one may have begun is kept, and its token is put in there when the colon comes.
-/
import CfgMembership.Standard.Yaml.Block
import CfgMembership.Standard.Yaml.Tag

namespace CfgMembership.Standard.Yaml

inductive Token where
  | directive
  | documentStart
  | documentEnd
  | blockSequence
  | blockMapping
  | blockEnd
  | flowSequence
  | flowSequenceEnd
  | flowMapping
  | flowMappingEnd
  | item
  | comma
  | key
  | value
  | reference (name : String)
  | anchor (name : String)
  | tag (t : Tag)
  | scalar (plain : Bool) (text : String)
  deriving DecidableEq, Repr

/-- where a key may have begun: how many tokens there were before, and the place -/
structure KeyStart where
  before : Nat
  position : Position
  deriving DecidableEq, Repr

/-- how many characters there may be from the beginning of a key to its colon -/
def keyLimit : Nat := 1024

/-- whether a colon at a place is near enough to make a key of what began here -/
def KeyStart.reaches (k : KeyStart) (colon : Position) : Bool :=
  k.position.line = colon.line && colon.column ≤ k.position.column + keyLimit

/-- a text being split: the spot, the tokens so far, where a key may have begun in the innermost brackets and in those around
them, whether the next token may begin one, the columns of the open blocks, the innermost first, and where the last quoted
text was over -/
structure Scanner where
  spot : Spot
  tokens : Array Token := #[]
  keyStart : Option KeyStart := none
  outerKeyStarts : List (Option KeyStart) := []
  mayBeginKey : Bool := true
  columns : List Nat := []
  quoteEnd : Option Position := none
  deriving Repr

namespace Scanner

def inFlow (s : Scanner) : Bool := !s.outerKeyStarts.isEmpty

/-- the least column in which the innermost block goes on inside its lines -/
def least (s : Scanner) : Nat :=
  match s.columns with
  | [] => 0
  | column :: _ => column + 1

/-- adds a token that has been read up to a spot -/
def add (s : Scanner) (token : Token) (spot : Spot) : Scanner := { s with tokens := s.tokens.push token, spot }

/-- adds a token of one character -/
def addMark (s : Scanner) (token : Token) : Scanner := s.add token (s.spot.skip 1)

/-! ## Blocks and keys -/

/-- closes the blocks whose columns do not pass a test; in brackets none is closed -/
def closeBlocks (keeps : Nat → Bool) (s : Scanner) : Scanner :=
  if s.inFlow then s
  else
    let columns := s.columns.dropWhile (!keeps ·)
    let closed := s.columns.length - columns.length
    { s with columns, tokens := s.tokens ++ Array.replicate closed Token.blockEnd }

/-- opens a block at a column if that is deeper than the blocks that are open; its token has a number of tokens before it -/
def openBlock (block : Token) (column before : Nat) (s : Scanner) : Scanner :=
  if s.inFlow || s.columns.head?.any (column ≤ ·) then s
  else { s with columns := column :: s.columns, tokens := s.tokens.insertIdxIfInBounds before block }

def openBlockHere (block : Token) (s : Scanner) : Scanner := s.openBlock block s.spot.column s.tokens.size

/-- notes that the next token may begin a key, if it may, and lets none begin right after it -/
def startKey (s : Scanner) : Scanner :=
  if s.mayBeginKey then { s with keyStart := some ⟨s.tokens.size, s.spot.position⟩, mayBeginKey := false } else s

/-! ## Marks -/

/-- the marker of a document's start or end -/
def marker (token : Token) (s : Scanner) : Scanner :=
  let s := s.closeBlocks fun _ => false
  { s with keyStart := none, mayBeginKey := false }.add token (s.spot.skip 3)

def directive? (s : Scanner) : Option Scanner := do
  let s := s.closeBlocks fun _ => false
  return { s with keyStart := none, mayBeginKey := false }.add .directive (← skipDirective? (s.spot.skip 1))

def openFlow (token : Token) (s : Scanner) : Scanner :=
  let s := s.startKey
  { s with keyStart := none, outerKeyStarts := s.keyStart :: s.outerKeyStarts, mayBeginKey := true }.addMark token

def closeFlow (token : Token) (s : Scanner) : Scanner :=
  match s.outerKeyStarts with
  | [] => { s with keyStart := none, mayBeginKey := false }.addMark token
  | keyStart :: outerKeyStarts => { s with keyStart, outerKeyStarts, mayBeginKey := false }.addMark token

def comma (s : Scanner) : Scanner := { s with keyStart := none, mayBeginKey := true }.addMark .comma

/-- the dash before an item, where no brackets are open and a key could begin as well -/
def item? (s : Scanner) : Option Scanner := do
  guard (!s.inFlow && s.mayBeginKey)
  return { s.openBlockHere .blockSequence with keyStart := none, mayBeginKey := true }.addMark .item

/-- the question mark before a key; outside brackets it stands where a key could begin as well -/
def explicitKey? (s : Scanner) : Option Scanner := do
  guard (s.inFlow || s.mayBeginKey)
  return { s.openBlockHere .blockMapping with keyStart := none, mayBeginKey := !s.inFlow }.addMark .key

/-- the colon before a value: it makes a key of what may have begun one; else, outside brackets, it stands where a key could
begin as well -/
def value? (s : Scanner) : Option Scanner :=
  match s.keyStart.filter (·.reaches s.spot.position) with
  | some k =>
    let s := { s with tokens := s.tokens.insertIdxIfInBounds k.before .key, keyStart := none, mayBeginKey := false }
    some ((s.openBlock .blockMapping k.position.column k.before).addMark .value)
  | none =>
    if s.inFlow then some ({ s with mayBeginKey := false }.addMark .value)
    else if s.mayBeginKey then some ((s.openBlockHere .blockMapping).addMark .value)
    else none

/-- whether a colon here stands before a value. In brackets it may also stand before a sign that means something there, or
right after quoted text. -/
def isValueMark (s : Scanner) (after : List Char) : Bool :=
  atGap after || (s.inFlow && (after.head?.any isFlow || s.quoteEnd = some s.spot.position))

/-! ## Nodes -/

/-- the name after the sign of an anchor or a reference -/
def scanName? (s : Spot) : Option (String × Spot) := do
  let (name, s) := (s.skip 1).takeWhile isNameChar
  guard (!name.isEmpty && (atGap s.rest || s.rest.head?.any "?:,]\x7d%@`".toList.contains))
  return (String.ofList name, s)

/-- an anchor or a reference -/
def name? (token : String → Token) (s : Scanner) : Option Scanner := do
  let s := s.startKey
  let (name, spot) ← scanName? s.spot
  return s.add (token name) spot

def tag? (s : Scanner) : Option Scanner := do
  let s := s.startKey
  let (tag, spot) ← scanTag? s.spot
  return s.add (.tag tag) spot

/-- a block with text -/
def block? (literal : Bool) (s : Scanner) : Option Scanner := do
  let s := s.startKey
  let (text, spot) ← scanBlock? literal s.least (s.spot.skip 1)
  return { s with mayBeginKey := true }.add (.scalar false text) spot

/-- quoted text, of which the first quote has been seen -/
def quoted? (double : Bool) (s : Scanner) : Option Scanner := do
  let s := s.startKey
  let inside := s.spot.skip 1
  let read ← if double then scanDouble {} .text inside.rest inside.position
    else scanSingle {} inside.rest inside.position
  return { s with quoteEnd := some read.spot.position }.add (.scalar false read.text) read.spot

def plain? (s : Scanner) : Option Scanner := do
  let s := s.startKey
  let read ← scanPlain s.inFlow s.least {} s.spot.rest s.spot.position
  return { s with mayBeginKey := s.mayBeginKey || read.newLine }.add (.scalar true read.text) read.spot

/-! ## All tokens -/

/-- goes on to the next token; also says whether that may begin a key. Outside brackets a line break allows that, and where a
key may begin a tab is no gap. -/
def skipGap (inFlow inComment mayBeginKey : Bool) : List Char → Position → Bool × Spot
  | [], p => (mayBeginKey, ⟨[], p⟩)
  | c :: rest, p =>
    if isBreak c then skipGap inFlow false (mayBeginKey || !inFlow) rest (p.after c)
    else if inComment || c = ' ' || (c = '\t' && (inFlow || !mayBeginKey)) then
      skipGap inFlow inComment mayBeginKey rest (p.after c)
    else if c = '#' then skipGap inFlow true mayBeginKey rest (p.after c)
    else (mayBeginKey, ⟨c :: rest, p⟩)

/-- reads the token that begins with a character and goes on with a text -/
def next? (s : Scanner) (c : Char) (after : List Char) : Option Scanner :=
  let leftmost := s.spot.column = 0
  if leftmost && c = '%' then s.directive?
  else if leftmost && atMarker (c :: after) then some (s.marker (if c = '-' then .documentStart else .documentEnd))
  else if c = '[' then some (s.openFlow .flowSequence)
  else if c = '\x7b' then some (s.openFlow .flowMapping)
  else if c = ']' then some (s.closeFlow .flowSequenceEnd)
  else if c = '\x7d' then some (s.closeFlow .flowMappingEnd)
  else if c = ',' then some s.comma
  else if c = '-' && atGap after then s.item?
  else if c = '?' && atGap after then s.explicitKey?
  else if c = ':' && s.isValueMark after then s.value?
  else if c = '*' then s.name? .reference
  else if c = '&' then s.name? .anchor
  else if c = '!' then s.tag?
  else if (c = '|' || c = '>') && !s.inFlow then s.block? (c = '|')
  else if c = '"' || c = Char.ofNat 39 then s.quoted? (c = '"')
  else if "%@`".toList.contains c then none
  else s.plain?

/-- reads as many tokens as `fuel` says at most -/
def run : (fuel : Nat) → Scanner → Option (List Token)
  | 0, _ => none
  | fuel + 1, s =>
    let (mayBeginKey, spot) := skipGap s.inFlow false s.mayBeginKey s.spot.rest s.spot.position
    let s := { s with mayBeginKey, spot }
    match spot.rest with
    | [] => some (s.closeBlocks fun _ => false).tokens.toList
    | c :: after => ((s.closeBlocks (· ≤ spot.column)).next? c after).bind (run fuel)

end Scanner

/-- the tokens of a text; each of them takes one character at least -/
def tokens? (text : String) : Option (List Token) :=
  let spot := Spot.ofText text
  Scanner.run (spot.rest.length + 1) { spot }

end CfgMembership.Standard.Yaml
