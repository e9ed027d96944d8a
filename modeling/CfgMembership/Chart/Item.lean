/-
Chart items: a production with a dot in its body and the position where its recognition began.
-/
import CfgMembership.Grammar.Basic

namespace CfgMembership

/-- a production `head -> body`, recognised up to the dot, from `origin` on -/
structure Item where
  head : Nat
  origin : Nat
  dot : Nat
  body : List Nat
  deriving DecidableEq, Hashable, Repr

/-- what an item waits for: a non-terminal, some terminal, or nothing when its dot is at the end -/
inductive Expected where
  | nonTerminal (id : Nat)
  | terminal
  | nothing
  deriving DecidableEq, Hashable, Repr

namespace Item

/-- a production about to be recognised at a position -/
def ofProduction (p : Production) (origin : Nat) : Item := ⟨p.lhs, origin, 0, p.rhs⟩

def advance (it : Item) : Item := { it with dot := it.dot + 1 }

def next? (it : Item) : Option Nat := it.body[it.dot]?

variable {σ : Type} [BEq σ] [Hashable σ]

def expected (g : Grammar σ) (it : Item) : Expected :=
  match it.next? with
  | none => .nothing
  | some id =>
    match g.kind id with
    | .nonTerminal => .nonTerminal id
    | _ => .terminal

/-- the item that says that the whole input is derived from the start symbol -/
def accepting (g : Grammar σ) : Item := ⟨g.augmentedStart, 0, 1, [g.start]⟩

variable [Written σ]

/-- the symbols of a body in order, each followed by a blank, and the dot before the one it points at -/
def bodyText (g : Grammar σ) (body : List Nat) (dot : Nat) : String :=
  match body, dot with
  | [], 0 => ". "
  | [], _ + 1 => ""
  | id :: rest, 0 => ". " ++ g.nameOf id ++ " " ++ restText rest
  | id :: rest, dot + 1 => g.nameOf id ++ " " ++ bodyText g rest dot
where
  /-- symbols without a dot -/
  restText : List Nat → String
    | [] => ""
    | id :: rest => g.nameOf id ++ " " ++ restText rest

/-- an item as text, its origin in brackets at the end -/
def text (g : Grammar σ) (it : Item) : String :=
  g.nameOf it.head ++ " -> " ++ bodyText g it.body it.dot ++ " (" ++ toString it.origin ++ ")"

end Item

end CfgMembership
