/-
Context-free grammars over symbols of any type.

The symbols a grammar was declared with are numbered by its symbol table, and all that the grammar holds speaks of the
numbers. One number more, the size of the table, stands for the augmented start symbol: no declared symbol has it, and its
only production derives the start symbol.
-/
import Std.Data.HashSet
import CfgMembership.SymbolTable

namespace CfgMembership

/-- characters as symbols are hashed by their code points -/
instance hashableChar : Hashable Char := ⟨fun c => hash c.toNat⟩

/-- symbols that can be written -/
class Written (σ : Type) where
  text : σ → String

instance : Written Char := ⟨fun c => String.ofList [c]⟩

instance : Written String := ⟨id⟩

inductive Kind where
  | terminal
  | nonTerminal
  | undefined
  deriving DecidableEq, Repr

structure Production where
  lhs : Nat
  rhs : List Nat
  deriving DecidableEq, Repr

def Production.isEpsilon (p : Production) : Bool := p.rhs.isEmpty

/-- a grammar: its symbols, what each was declared as, the productions of each left side in the order of their
declaration, the symbols that derive the empty word, and the start symbol -/
structure Grammar (σ : Type) [BEq σ] [Hashable σ] where
  table : SymbolTable σ
  terminals : Std.HashSet Nat
  nonTerminals : Std.HashSet Nat
  rules : Array (List Production)
  nullable : Std.HashSet Nat
  start : Nat

namespace Grammar

variable {σ : Type} [BEq σ] [Hashable σ]

def augmentedStart (g : Grammar σ) : Nat := g.table.size

/-- what a number was declared as; the augmented start symbol is a non-terminal -/
def kind (g : Grammar σ) (id : Nat) : Kind :=
  if g.nonTerminals.contains id then .nonTerminal
  else if g.terminals.contains id then .terminal
  else .undefined

def classify (g : Grammar σ) (s : σ) : Kind :=
  match g.table.id? s with
  | none => .undefined
  | some id => g.kind id

def isNullable (g : Grammar σ) (id : Nat) : Bool := g.nullable.contains id

/-- the productions of a left side, in the order of their declaration -/
def productionsOf (g : Grammar σ) (lhs : Nat) : List Production := g.rules[lhs]?.getD []

/-- the numbers of the terminals, ascending -/
def terminalIds (g : Grammar σ) : List Nat :=
  (List.range (g.table.size + 1)).filter g.terminals.contains

/-- the numbers of the non-terminals, ascending, the augmented start symbol among them -/
def nonTerminalIds (g : Grammar σ) : List Nat :=
  (List.range (g.table.size + 1)).filter g.nonTerminals.contains

/-- how many positions of a dot the productions have together -/
def dottedCount (g : Grammar σ) : Nat :=
  g.rules.foldl (fun total ps => ps.foldl (fun total p => total + (p.rhs.length + 1)) total) 0

end Grammar

/-! ## Names -/

variable {σ : Type} [BEq σ] [Hashable σ] [Written σ]

/-- the name of a number: its symbol, or the number itself after a hash sign -/
def SymbolTable.nameOf (t : SymbolTable σ) (id : Nat) : String :=
  match t.symbol? id with
  | none => "#" ++ toString id
  | some s => Written.text s

/-- the name of a number; the augmented start symbol is the start symbol with a prime -/
def Grammar.nameOf (g : Grammar σ) (id : Nat) : String :=
  if id = g.augmentedStart then g.table.nameOf g.start ++ "'" else g.table.nameOf id

/-- a production as text, the symbols of its body set apart by blanks -/
def Grammar.productionText (g : Grammar σ) (p : Production) : String :=
  g.nameOf p.lhs ++ " -> " ++ " ".intercalate (p.rhs.map g.nameOf)

end CfgMembership
