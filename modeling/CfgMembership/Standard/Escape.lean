/-
Text without what is meant for a terminal: escape sequences, control strings and control characters. Line feeds stay,
except inside a control string.

A sequence begins with the escape character. A bracket after it opens a control sequence of parameters, intermediate
characters and one final character; some letters open a control string that lasts until it is ended or the next escape.
-/
namespace CfgMembership.Standard.Escape

/-- where a reader of terminal text stands -/
inductive State where
  | ground
  | escape
  | escapeIntermediate
  | sequenceEntry
  | sequenceParameter
  | sequenceIntermediate
  | sequenceIgnored
  | deviceEntry
  | deviceParameter
  | deviceIntermediate
  | devicePassed
  | deviceIgnored
  | systemCommand
  | otherString
  deriving DecidableEq, Repr

/-- what a character can be in a sequence -/
inductive Role where
  | control
  | intermediate
  | parameter
  | marker
  | final
  | delete
  | wide
  deriving DecidableEq, Repr

def Role.of (c : Char) : Role :=
  let n := c.toNat
  if n < 0x20 then .control
  else if n < 0x30 then .intermediate
  else if n < 0x3C then .parameter
  else if n < 0x40 then .marker
  else if n < 0x7F then .final
  else if n = 0x7F then .delete
  else .wide

/-- the byte that ends a control string -/
def stringEnd : UInt8 := 0x9C

/-- whether the bytes of a character end a control string -/
def endsString (c : Char) : Bool := (String.utf8EncodeChar c).contains stringEnd

/-- where a sequence goes on after the escape character -/
def afterEscape (c : Char) : State :=
  match c with
  | '[' => .sequenceEntry
  | ']' => .systemCommand
  | 'P' => .deviceEntry
  | 'X' | '^' | '_' => .otherString
  | _ => .ground

/-- the state after a character that is not the escape character and does not cancel a sequence -/
def next (state : State) (c : Char) : State :=
  match state, Role.of c with
  | .ground, _ => .ground
  | .escape, .intermediate => .escapeIntermediate
  | .escape, .parameter | .escape, .marker | .escape, .final => afterEscape c
  | .escapeIntermediate, .parameter | .escapeIntermediate, .marker | .escapeIntermediate, .final => .ground
  | .sequenceEntry, .intermediate => .sequenceIntermediate
  | .sequenceEntry, .parameter | .sequenceEntry, .marker => .sequenceParameter
  | .sequenceParameter, .intermediate => .sequenceIntermediate
  | .sequenceParameter, .marker => .sequenceIgnored
  | .sequenceIntermediate, .parameter | .sequenceIntermediate, .marker => .sequenceIgnored
  | .sequenceEntry, .final | .sequenceParameter, .final | .sequenceIntermediate, .final | .sequenceIgnored, .final =>
    .ground
  | .deviceEntry, .intermediate => .deviceIntermediate
  | .deviceEntry, .parameter | .deviceEntry, .marker => .deviceParameter
  | .deviceParameter, .intermediate => .deviceIntermediate
  | .deviceParameter, .marker => .deviceIgnored
  | .deviceIntermediate, .parameter | .deviceIntermediate, .marker => .deviceIgnored
  | .deviceEntry, .final | .deviceParameter, .final | .deviceIntermediate, .final => .devicePassed
  | .devicePassed, .wide | .deviceIgnored, .wide | .otherString, .wide => if endsString c then .ground else state
  | .systemCommand, .control => if c = '\x07' then .ground else .systemCommand
  | state, _ => state

def State.keepsLineFeed : State → Bool
  | .deviceEntry | .deviceParameter | .deviceIntermediate | .devicePassed | .deviceIgnored | .systemCommand
  | .otherString => false
  | _ => true

def kept (state : State) (c : Char) : Bool :=
  if c = '\n' then state.keepsLineFeed
  else state = .ground && Role.of c ≠ .control

/-- whether a character cancels any sequence -/
def cancels (c : Char) : Bool := c = '\x18' || c = '\x1a'

/-- the characters kept from a state on, with those kept before in reverse -/
def stripFrom : State → (before : List Char) → List Char → List Char
  | _, before, [] => before.reverse
  | state, before, c :: rest =>
    if cancels c then stripFrom .ground before rest
    else if c = '\x1b' then stripFrom .escape before rest
    else stripFrom (next state c) (if kept state c then c :: before else before) rest

/-- a text without escape sequences and control characters -/
def strip (text : String) : String := String.ofList (stripFrom .ground [] text.toList)

end CfgMembership.Standard.Escape
