/-
Building a grammar from declarations.

Declarations may come in any order and repeat: a symbol may be used before it is declared, and the start symbol marked last
counts. Each symbol gets its number where it is first mentioned. `build` checks that the declarations fit together and
reports the first fault.

A builder is called with one declaration at a time, or with a left side and then its bodies one after the other.
-/
import CfgMembership.Grammar.Basic
import CfgMembership.Grammar.Nullable

namespace CfgMembership

inductive Declaration (σ : Type) where
  | terminal (s : σ)
  | nonTerminal (s : σ)
  | start (s : σ)
  | production (lhs : σ) (rhs : List σ)
  deriving Repr

/-- one call on a builder: a declaration, or a left side and its bodies, an empty body for the empty word -/
inductive Call (σ : Type) where
  | declaration (d : Declaration σ)
  | productions (lhs : σ) (bodies : List (List σ))
  deriving Repr

namespace Grammar

/-- why declarations make no grammar, with the name of the symbol at fault -/
inductive Fault where
  | noStart
  | startNotNonTerminal (name : String)
  | lhsNotNonTerminal (name : String)
  | undefinedSymbol (name : String)
  | ambiguousKind (name : String)
  deriving DecidableEq, Repr

def Fault.message : Fault → String
  | .noStart => "No start symbol specified for grammar"
  | .startNotNonTerminal name => s!"Start symbol '{name}' is not a non-terminal"
  | .lhsNotNonTerminal name => s!"Production left-hand side '{name}' is not a non-terminal"
  | .undefinedSymbol name => s!"Symbol '{name}' is neither a terminal nor a non-terminal"
  | .ambiguousKind name => s!"Symbol '{name}' is both a terminal and a non-terminal"

structure Builder (σ : Type) [BEq σ] [Hashable σ] where
  table : SymbolTable σ := .empty
  terminals : Std.HashSet Nat := ∅
  nonTerminals : Std.HashSet Nat := ∅
  productions : Array Production := #[]
  start : Option Nat := none

namespace Builder

variable {σ : Type} [BEq σ] [Hashable σ]

def empty : Builder σ := {}

def terminal (b : Builder σ) (s : σ) : Builder σ :=
  let (id, table) := b.table.intern s
  { b with table, terminals := b.terminals.insert id }

def nonTerminal (b : Builder σ) (s : σ) : Builder σ :=
  let (id, table) := b.table.intern s
  { b with table, nonTerminals := b.nonTerminals.insert id }

def markStart (b : Builder σ) (s : σ) : Builder σ :=
  let (id, table) := b.table.intern s
  { b with table, start := some id }

/-- declares a production, which is given back by numbers -/
def addProduction (b : Builder σ) (lhs : σ) (rhs : List σ) : Production × Builder σ :=
  let (lhs, table) := b.table.intern lhs
  let (rhs, table) := table.internAll rhs
  (⟨lhs, rhs⟩, { b with table, productions := b.productions.push ⟨lhs, rhs⟩ })

def declare (b : Builder σ) : Declaration σ → Builder σ
  | .terminal s => b.terminal s
  | .nonTerminal s => b.nonTerminal s
  | .start s => b.markStart s
  | .production lhs rhs => (b.addProduction lhs rhs).2

def declareAll (b : Builder σ) (ds : List (Declaration σ)) : Builder σ :=
  ds.foldl declare b

/-- declares a production for each body of a left side; without bodies the left side is not mentioned -/
def addBodies (b : Builder σ) (lhs : σ) (bodies : List (List σ)) : Builder σ :=
  bodies.foldl (fun b rhs => (b.addProduction lhs rhs).2) b

def call (b : Builder σ) : Call σ → Builder σ
  | .declaration d => b.declare d
  | .productions lhs bodies => b.addBodies lhs bodies

def callAll (b : Builder σ) (calls : List (Call σ)) : Builder σ :=
  calls.foldl call b

/-- the least number declared both as a terminal and as a non-terminal -/
def ambiguous? (b : Builder σ) : Option Nat :=
  (List.range b.table.size).find? fun id => b.terminals.contains id && b.nonTerminals.contains id

variable [Written σ]

/-- what is wrong with a production: its left side is no non-terminal, or else some symbol of its body is undeclared -/
def productionFault? (b : Builder σ) (p : Production) : Option Fault :=
  if b.nonTerminals.contains p.lhs then
    (p.rhs.find? fun id => !(b.nonTerminals.contains id || b.terminals.contains id)).map
      fun id => .undefinedSymbol (b.table.nameOf id)
  else some (.lhsNotNonTerminal (b.table.nameOf p.lhs))

/-- the first fault under a given start symbol -/
def fault? (b : Builder σ) (start : Nat) : Option Fault :=
  match b.ambiguous? with
  | some id => some (.ambiguousKind (b.table.nameOf id))
  | none =>
    if b.nonTerminals.contains start then b.productions.toList.findSome? b.productionFault?
    else some (.startNotNonTerminal (b.table.nameOf start))

omit [Written σ] in
/-- the grammar of the declarations, its productions grouped by left side and the augmented start symbol added -/
def grammar (b : Builder σ) (start : Nat) : Grammar σ :=
  let augmented := b.table.size
  let productions := b.productions.toList ++ [⟨augmented, [start]⟩]
  { table := b.table
    terminals := b.terminals
    nonTerminals := b.nonTerminals.insert augmented
    rules := ((List.range (augmented + 1)).map fun id => productions.filter (·.lhs == id)).toArray
    nullable := Std.HashSet.ofList (Nullable.find productions)
    start }

def build (b : Builder σ) : Except Fault (Grammar σ) :=
  match b.start with
  | none => .error .noStart
  | some start =>
    match b.fault? start with
    | some fault => .error fault
    | none => .ok (b.grammar start)

end Builder

def ofDeclarations {σ : Type} [BEq σ] [Hashable σ] [Written σ] (ds : List (Declaration σ)) :
    Except Fault (Grammar σ) :=
  (Builder.empty.declareAll ds).build

def ofCalls {σ : Type} [BEq σ] [Hashable σ] [Written σ] (calls : List (Call σ)) : Except Fault (Grammar σ) :=
  (Builder.empty.callAll calls).build

end Grammar

end CfgMembership
