/-
YAML scalars on lines that are folded: plain text, and text in single or double quotes.

Text that runs over several lines is folded: one line break becomes a blank, and more become one line feed less than there
are. Space around a line break is left out.
-/
import CfgMembership.Standard.Yaml.Spot

namespace CfgMembership.Standard.Yaml

/-- a text read, whether a line break was read after it, and where it is over -/
structure Scanned where
  text : String
  newLine : Bool
  spot : Spot
  deriving DecidableEq, Repr

/-! ## Folding -/

/-- what stands between two visible characters: spaces on one line, or line breaks, the first of which may be escaped -/
inductive Between where
  | spaces (reversed : List Char)
  | breaks (escaped : Bool) (more : Nat)
  deriving DecidableEq, Repr

/-- text under way: what is read, in reverse, and what stands after it -/
structure Folding where
  reversed : List Char := []
  between : Between := .spaces []
  deriving DecidableEq, Repr

namespace Folding

/-- what stands between, in reverse, as it is kept -/
def kept : Between → List Char
  | .spaces reversed => reversed
  | .breaks escaped 0 => if escaped then [] else [' ']
  | .breaks _ more => List.replicate more '\n'

/-- adds a space; after a line break it is indentation -/
def space (f : Folding) (c : Char) : Folding :=
  match f.between with
  | .spaces reversed => { f with between := .spaces (c :: reversed) }
  | .breaks .. => f

def lineBreak (f : Folding) : Folding :=
  match f.between with
  | .spaces _ => { f with between := .breaks false 0 }
  | .breaks escaped more => { f with between := .breaks escaped (more + 1) }

/-- adds an escaped line break, before which spaces are kept -/
def escapedBreak (f : Folding) : Folding :=
  { reversed := kept f.between ++ f.reversed, between := .breaks true 0 }

/-- whether a line break was read last -/
def afterBreak (f : Folding) : Bool :=
  match f.between with
  | .spaces _ => false
  | .breaks .. => true

def visible (f : Folding) (c : Char) : Folding :=
  { reversed := c :: (kept f.between ++ f.reversed), between := .spaces [] }

/-- whether space or a line break was read last -/
def afterGap (f : Folding) : Bool := f.between ≠ .spaces []

end Folding

/-- plain text: what stands after the last visible character is left out -/
def Scanned.ofPlain (f : Folding) (spot : Spot) : Scanned := ⟨String.ofList f.reversed.reverse, f.afterBreak, spot⟩

/-- quoted text: what stands before the closing quote belongs to it -/
def Scanned.ofQuoted (f : Folding) (spot : Spot) : Scanned :=
  ⟨String.ofList (Folding.kept f.between ++ f.reversed).reverse, false, spot⟩

/-! ## Plain and quoted -/

/-- whether plain text is over before a character that is no space. Outside brackets it goes on only on lines whose column is
deep enough; a comment ends it after a gap, a marker at the beginning of a line, and a colon before a gap. In brackets the
signs that mean something there end it as well. -/
def endsPlain (inFlow : Bool) (least : Nat) (f : Folding) (c : Char) (after : List Char) (p : Position) : Bool :=
  (f.afterBreak && !inFlow && p.column < least) || (f.afterGap && c = '#') || (p.column = 0 && atMarker (c :: after)) ||
    (c = ':' && (atGap after || (inFlow && after.head?.any isFlow))) || (inFlow && isFlow c)

/-- plain text; in the indentation of a line no tab may stand -/
def scanPlain (inFlow : Bool) (least : Nat) (f : Folding) : List Char → Position → Option Scanned
  | [], p => some (.ofPlain f ⟨[], p⟩)
  | c :: rest, p =>
    if isSpace c then
      if f.afterBreak && p.column < least && c = '\t' then none
      else scanPlain inFlow least (f.space c) rest (p.after c)
    else if isBreak c then scanPlain inFlow least f.lineBreak rest (p.after c)
    else if endsPlain inFlow least f c rest p then some (.ofPlain f ⟨c :: rest, p⟩)
    else scanPlain inFlow least (f.visible c) rest (p.after c)

/-- text in single quotes, after the first of them; a quote in it is written twice -/
def scanSingle (f : Folding) : List Char → Position → Option Scanned
  | [], _ => none
  | c :: rest, p =>
    if p.column = 0 && atMarker (c :: rest) then none
    else if isSpace c then scanSingle (f.space c) rest (p.after c)
    else if isBreak c then scanSingle f.lineBreak rest (p.after c)
    else if c = Char.ofNat 39 then
      match rest with
      | d :: more =>
        if d = Char.ofNat 39 then scanSingle (f.visible d) more ((p.after c).after d)
        else some (.ofQuoted f ⟨d :: more, p.after c⟩)
      | [] => some (.ofQuoted f ⟨[], p.after c⟩)
    else scanSingle (f.visible c) rest (p.after c)

/-- the character of a one-letter escape -/
def escaped? : Char → Option Char
  | '0' => some '\x00'
  | 'a' => some '\x07'
  | 'b' => some '\x08'
  | 't' | '\t' => some '\t'
  | 'n' => some '\n'
  | 'v' => some '\x0b'
  | 'f' => some '\x0c'
  | 'r' => some '\r'
  | 'e' => some '\x1b'
  | ' ' => some ' '
  | '"' => some '"'
  | '\\' => some '\\'
  | 'N' => some '\u0085'
  | '_' => some '\u00a0'
  | 'L' => some '\u2028'
  | 'P' => some '\u2029'
  | c => if c = Char.ofNat 39 then some c else none

/-- how many digits an escape by number has -/
def escapeWidth? : Char → Option Nat
  | 'x' => some 2
  | 'u' => some 4
  | 'U' => some 8
  | _ => none

/-- what the next character of an escape by number does: digits left and the number so far -/
structure Escaping where
  left : Nat
  value : Nat
  deriving DecidableEq, Repr

/-- where text in double quotes stands: between escapes, after a backslash, or in a number -/
inductive QuoteState where
  | text
  | backslash
  | number (e : Escaping)
  deriving DecidableEq, Repr

/-- text in double quotes, after the first of them -/
def scanDouble (f : Folding) : QuoteState → List Char → Position → Option Scanned
  | _, [], _ => none
  | .number e, c :: rest, p => do
    let digit ← hexValue? c
    let value := 16 * e.value + digit
    if e.left = 1 then
      guard value.isValidChar
      scanDouble (f.visible (Char.ofNat value)) .text rest (p.after c)
    else scanDouble f (.number ⟨e.left - 1, value⟩) rest (p.after c)
  | .backslash, c :: rest, p =>
    if isBreak c then scanDouble f.escapedBreak .text rest (p.after c)
    else
      match escapeWidth? c with
      | some left => scanDouble f (.number ⟨left, 0⟩) rest (p.after c)
      | none => do
        let character ← escaped? c
        scanDouble (f.visible character) .text rest (p.after c)
  | .text, c :: rest, p =>
    if p.column = 0 && atMarker (c :: rest) then none
    else if isSpace c then scanDouble (f.space c) .text rest (p.after c)
    else if isBreak c then scanDouble f.lineBreak .text rest (p.after c)
    else if c = '"' then some (.ofQuoted f ⟨rest, p.after c⟩)
    else if c = '\\' then scanDouble f .backslash rest (p.after c)
    else scanDouble (f.visible c) .text rest (p.after c)

end CfgMembership.Standard.Yaml
