/-
The symbols that derive the empty word.

`find` starts from the left sides of the empty productions and takes found symbols off a stack. For each one it looks at
the productions whose body holds it: a left side is found once all symbols of one of its bodies are. The answer does not
hang on the order of the productions.
-/
import CfgMembership.Grammar.Basic

namespace CfgMembership.Nullable

/-- the symbols found so far, the latest first, and those whose uses have not been looked at -/
structure Search where
  found : List Nat
  stack : List Nat
  deriving DecidableEq, Repr

/-- notes a symbol as found, unless it is already -/
def Search.add (search : Search) (symbol : Nat) : Search :=
  if search.found.contains symbol then search
  else ⟨symbol :: search.found, symbol :: search.stack⟩

def Search.covers (search : Search) (body : List Nat) : Bool :=
  body.all search.found.contains

/-- the search before its first step: the left sides of the empty productions -/
def start (productions : List Production) : Search :=
  productions.foldl (fun search p => if p.isEpsilon then search.add p.lhs else search) ⟨[], []⟩

/-- looks at the productions whose body holds a symbol -/
def visit (productions : List Production) (symbol : Nat) (search : Search) : Search :=
  (productions.filter (·.rhs.contains symbol)).foldl
    (fun search p => if search.covers p.rhs then search.add p.lhs else search) search

/-- takes one symbol off the stack and visits it -/
def step? (productions : List Production) (search : Search) : Option Search :=
  match search.stack with
  | [] => none
  | symbol :: stack => some (visit productions symbol { search with stack })

/-- steps until the stack is empty, `fuel` times at most -/
def run (productions : List Production) : Nat → Search → Search
  | 0, search => search
  | fuel + 1, search =>
    match step? productions search with
    | none => search
    | some search => run productions fuel search

/-- the symbols that derive the empty word; a symbol is taken off the stack once at most, and each is a left side, so the
number of productions bounds the steps -/
def find (productions : List Production) : List Nat :=
  (run productions productions.length (start productions)).found

end CfgMembership.Nullable
