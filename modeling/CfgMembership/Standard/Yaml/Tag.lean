/-
YAML tags and directives.

A tag is written as `!suffix`, as `!handle!suffix` or as `!<suffix>`. In a suffix, octets may be written as a percent sign
and two hexadecimal digits. Directives say nothing that a document here depends on, but they have to be well formed.
-/
import CfgMembership.Standard.Yaml.Spot

namespace CfgMembership.Standard.Yaml

/-! ## Tags -/

/-- a tag as it is written: a handle, with its exclamation marks, and a suffix -/
structure Tag where
  handle : String
  suffix : String
  deriving DecidableEq, Repr

def Tag.null : Tag := ⟨"!!", "null"⟩

/-- the characters of a suffix as it is written -/
def isSuffixChar (c : Char) : Bool :=
  isNameChar c || ";/?:@&=+$,.!~*()[]%".toList.contains c || c = Char.ofNat 39

/-- how many octets a sequence has that begins with an octet -/
def octetCount? (octet : Nat) : Option Nat :=
  if octet < 0x80 then some 1
  else if octet < 0xC0 then none
  else if octet < 0xE0 then some 2
  else if octet < 0xF0 then some 3
  else if octet < 0xF8 then some 4
  else none

/-- reads the escapes in a suffix. The octets of a sequence are the digits of one number to the base 256, which has to be a
character; `left` of them are missing, and `code` is the number so far. -/
def decodeSuffix? (left code : Nat) : List Char → Option (List Char)
  | [] => if left = 0 then some [] else none
  | '%' :: high :: low :: rest => do
    let octet := 16 * (← hexValue? high) + (← hexValue? low)
    let (left, code) ← if left = 0 then (octetCount? octet).map fun n => (n - 1, octet)
      else if 0x80 ≤ octet && octet < 0xC0 then some (left - 1, 256 * code + octet)
      else none
    if left = 0 then
      guard code.isValidChar
      (decodeSuffix? 0 0 rest).map (Char.ofNat code :: ·)
    else decodeSuffix? left code rest
  | c :: rest => if left = 0 && c ≠ '%' then (decodeSuffix? 0 0 rest).map (c :: ·) else none

/-- a suffix, after what has been read of it as a handle -/
def scanSuffix? (before : List Char) (s : Spot) : Option (String × Spot) := do
  let (written, s) := s.takeWhile isSuffixChar
  return (String.ofList (before ++ (← decodeSuffix? 0 0 written)), s)

/-- the signs of a handle: an exclamation mark, a name that may be empty, and another mark if there is one -/
def scanHandle? (s : Spot) : Option (List Char × Spot) :=
  match s.rest with
  | '!' :: _ =>
    let (name, s) := (s.skip 1).takeWhile isNameChar
    if s.rest.head? = some '!' then some ('!' :: name ++ ['!'], s.skip 1) else some ('!' :: name, s)
  | _ => none

/-- whether a handle has both of its marks -/
def isClosedHandle (handle : List Char) : Bool := 2 ≤ handle.length && handle.getLast? = some '!'

/-- a tag; a gap has to follow it -/
def scanTag? (s : Spot) : Option (Tag × Spot) := do
  let (tag, s) ←
    if s.rest.take 2 = ['!', '<'] then do
      let (suffix, s) ← scanSuffix? [] (s.skip 2)
      guard (suffix ≠ "" && s.rest.head? = some '>')
      pure (Tag.mk "" suffix, s.skip 1)
    else do
      let (handle, s) ← scanHandle? s
      if isClosedHandle handle then
        let (suffix, s) ← scanSuffix? [] s
        guard (suffix ≠ "")
        pure (Tag.mk (String.ofList handle) suffix, s)
      else
        let (suffix, s) ← scanSuffix? (handle.drop 1) s
        pure (if suffix = "" then Tag.mk "" "!" else Tag.mk "!" suffix, s)
  guard (atGap s.rest)
  return (tag, s)

/-! ## Directives -/

/-- goes over a number with at most nine digits -/
def skipNumber? (s : Spot) : Option Spot :=
  let (digits, s) := s.takeWhile Char.isDigit
  if 1 ≤ digits.length && digits.length ≤ 9 then some s else none

/-- goes over a version: two numbers with a point between them -/
def skipVersion? (s : Spot) : Option Spot := do
  let s ← skipNumber? s.skipSpaces
  guard (s.rest.head? = some '.')
  skipNumber? (s.skip 1)

/-- goes over what a handle is short for: a closed handle or a single mark, and a suffix -/
def skipHandleDefinition? (s : Spot) : Option Spot := do
  let (handle, s) ← scanHandle? s.skipSpaces
  guard (isClosedHandle handle || handle = ['!'])
  let (suffix, s) ← scanSuffix? [] s.skipSpaces
  guard (suffix ≠ "" && atGap s.rest)
  return s

/-- goes over a directive and its line, after the percent sign; one with an unknown name may go on as it likes -/
def skipDirective? (s : Spot) : Option Spot := do
  let (name, s) := s.takeWhile isNameChar
  guard (!name.isEmpty && atGap s.rest)
  let s ← match String.ofList name with
    | "YAML" => skipVersion? s
    | "TAG" => skipHandleDefinition? s
    | _ => some s.skipLine
  s.endLine?

end CfgMembership.Standard.Yaml
