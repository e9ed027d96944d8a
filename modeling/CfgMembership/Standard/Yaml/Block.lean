/-
YAML blocks: scalars that are written as lines of their own, indented under what they belong to.

The lines of a literal block are kept; those of a folded one are joined with blanks, unless one of them begins with a space.
What happens to the line breaks at the end is up to the chomping.
-/
import CfgMembership.Standard.Yaml.Scalar

namespace CfgMembership.Standard.Yaml

/-- what happens to the line breaks at the end of a block -/
inductive Chomping where
  | strip
  | clip
  | keep
  deriving DecidableEq, Repr

/-- the line after the sign of a block: how to chomp it, and how deep it is indented if that is given -/
structure BlockHeader where
  chomping : Chomping := .clip
  indent : Option Nat := none
  deriving DecidableEq, Repr

def Chomping.ofSign? (c : Char) : Option Chomping :=
  if c = '+' then some .keep else if c = '-' then some .strip else none

/-- the depth that a digit stands for -/
def depth? (c : Char) : Option Nat := if '1' ≤ c && c ≤ '9' then some (c.toNat - '0'.toNat) else none

/-- the header that indicators write, each kind of them once at most -/
def BlockHeader.ofIndicators? : List Char → Option BlockHeader
  | [] => some {}
  | [c] =>
    match Chomping.ofSign? c with
    | some chomping => some { chomping }
    | none => (depth? c).map fun depth => { indent := some depth }
  | [c, d] =>
    match Chomping.ofSign? c with
    | some chomping => (depth? d).map fun depth => ⟨chomping, some depth⟩
    | none => do return ⟨← Chomping.ofSign? d, some (← depth? c)⟩
  | _ => none

/-- reads the header and the line break after it -/
def scanHeader? (s : Spot) : Option (BlockHeader × Spot) := do
  let (indicators, s) := s.takeWhile fun c => !(isSpace c || isBreak c || c = '#')
  return (← BlockHeader.ofIndicators? indicators, ← s.endLine?)

/-- how deep the first line that is not empty is indented, or an empty one before it if that goes deeper -/
def deepest? (found : Nat) : List Char → Position → Option Nat
  | [], p => some (max found p.column)
  | c :: rest, p =>
    if c = ' ' then deepest? found rest (p.after c)
    else if isBreak c then deepest? (max found p.column) rest (p.after c)
    else if c = '\t' then none
    else some (max found p.column)

/-- a block under way: the text in reverse, whether a line has ended since, how many empty lines have, and whether the last
line with text began with a space -/
structure Block where
  reversed : List Char := []
  ended : Bool := false
  empty : Nat := 0
  spaced : Bool := false
  deriving DecidableEq, Repr

namespace Block

/-- begins a line with text; its line break is folded unless it or the line before begins with a space -/
def beginLine (literal : Bool) (b : Block) (c : Char) : Block :=
  let foldable := !literal && b.ended && !b.spaced && !isSpace c
  let lineBreak := if foldable then (if b.empty = 0 then [' '] else []) else (if b.ended then ['\n'] else [])
  { reversed := c :: (List.replicate b.empty '\n' ++ lineBreak ++ b.reversed), spaced := isSpace c }

def text (chomping : Chomping) (b : Block) : String :=
  let last := if b.ended then ['\n'] else []
  let tail := match chomping with
    | .strip => []
    | .clip => last
    | .keep => List.replicate b.empty '\n' ++ last
  String.ofList (tail ++ b.reversed).reverse

end Block

/-- the lines of a block; `inLine` says whether the indentation of the line is over -/
def scanLines? (literal : Bool) (chomping : Chomping) (indent : Nat) (inLine : Bool) (b : Block) :
    List Char → Position → Option (String × Spot)
  | [], p => some (b.text chomping, ⟨[], p⟩)
  | c :: rest, p =>
    if inLine then
      if isBreak c then scanLines? literal chomping indent false { b with ended := true } rest (p.after c)
      else scanLines? literal chomping indent true { b with reversed := c :: b.reversed } rest (p.after c)
    else if isBreak c then scanLines? literal chomping indent false { b with empty := b.empty + 1 } rest (p.after c)
    else if p.column < indent && c = ' ' then scanLines? literal chomping indent false b rest (p.after c)
    else if p.column < indent && c = '\t' then none
    else if p.column = indent then scanLines? literal chomping indent true (b.beginLine literal c) rest (p.after c)
    else some (b.text chomping, ⟨c :: rest, p⟩)

/-- a block after its sign; `least` is the least column that its lines may have -/
def scanBlock? (literal : Bool) (least : Nat) (s : Spot) : Option (String × Spot) := do
  let (header, s) ← scanHeader? s
  let indent ← match header.indent with
    | some depth => some (depth + (least - 1))
    | none => (deepest? 0 s.rest s.position).map (max (max least 1))
  scanLines? literal header.chomping indent false {} s.rest s.position

end CfgMembership.Standard.Yaml
