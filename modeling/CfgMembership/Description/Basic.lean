/-
Grammar descriptions, and what can be wrong with one.

A description is read line by line: the counts of non-terminals, terminals and rules; the non-terminals; the terminals; one
rule on a line; the start symbol. Every symbol is one character.
-/
import CfgMembership.Grammar.Builder
import CfgMembership.Log
import CfgMembership.Source.Basic

namespace CfgMembership

/-- a rule `head -> body` -/
structure Rule where
  head : Char
  body : List Char
  deriving DecidableEq, Repr

/-- a grammar as it is described; the alphabets hold no character twice -/
structure Description where
  nonTerminals : List Char
  terminals : List Char
  rules : List Rule
  start : Char
  deriving DecidableEq, Repr

namespace Description

inductive Alphabet where
  | nonTerminal
  | terminal
  deriving DecidableEq, Repr

def Alphabet.name : Alphabet → String
  | .nonTerminal => "non-terminal"
  | .terminal => "terminal"

def Alphabet.allows : Alphabet → Char → Bool
  | .nonTerminal, c => 'A' ≤ c && c ≤ 'Z'
  | .terminal, c => c.isDigit || c.isLower || "()[]\x7b\x7d+-=/*".toList.contains c

inductive RuleFault where
  | unreadable (error : SourceError)
  | empty
  | badHead (word : String)
  | badArrow (word : String)
  | noArrow
  | trailing
  | undeclared (c : Char)
  deriving DecidableEq, Repr

inductive Fault where
  | missingCount (line : String)
  | invalidCount (word : String)
  | missingWord
  | unexpectedInput (word : String)
  | badCharacter (alphabet : Alphabet) (c : Char)
  | badSize (alphabet : Alphabet) (expected actual : Nat)
  | badRule (number : Nat) (fault : RuleFault)
  | badStart (word : String)
  | unreadable (error : SourceError)
  | badGrammar (fault : Grammar.Fault)
  deriving DecidableEq, Repr

def RuleFault.message : RuleFault → String
  | .unreadable error => error.message
  | .empty => "empty rule"
  | .badHead word => s!"'{word}' is not a declared non-terminal"
  | .badArrow word => s!"expected '->' but found '{word}'"
  | .noArrow => "missing '->'"
  | .trailing => "unexpected input after rule body"
  | .undeclared c => s!"'{c}' is not a declared symbol"

namespace Fault

def message : Fault → String
  | .missingCount line => s!"inappropriate parsing format: Missing count in '{line}'"
  | .invalidCount word => s!"inappropriate parsing format: Invalid count '{word}'"
  | .missingWord => "inappropriate parsing format: Missing word on line"
  | .unexpectedInput word => s!"inappropriate parsing format: Unexpected input after '{word}'"
  | .badCharacter .nonTerminal c => s!"inappropriate nonterminal value '{c}'"
  | .badCharacter .terminal c => s!"inappropriate terminal value '{c}'"
  | .badSize alphabet expected actual =>
    s!"expected size does not match real size: {expected} {alphabet.name} symbols declared, {actual} found"
  | .badRule number fault => s!"rule number {number} is wrong: {fault.message}"
  | .badStart word => s!"inappropriate start nonterminal '{word}'"
  | .unreadable error => "Failed to read grammar: " ++ error.message
  | .badGrammar fault => "Invalid grammar: " ++ fault.message

/-- the messages of the errors behind this one, the nearest first -/
def causes : Fault → List String
  | .unreadable error => error.message :: error.causes
  | .badGrammar fault => [fault.message]
  | _ => []

end Fault

/-- a grammar that could not be loaded for lack of a sound description -/
structure LoadFault where
  fault : Fault
  deriving DecidableEq, Repr

def LoadFault.message (f : LoadFault) : String :=
  "Failed to parse grammar specification: " ++ f.fault.message

def LoadFault.causes (f : LoadFault) : List String :=
  f.fault.message :: f.fault.causes

def declarations (d : Description) : List (Declaration Char) :=
  d.nonTerminals.map .nonTerminal ++ d.terminals.map .terminal ++
    d.rules.map (fun rule => .production rule.head rule.body) ++ [.start d.start]

def grammar (d : Description) : Except Fault (Grammar Char) :=
  match Grammar.ofDeclarations d.declarations with
  | .error fault => .error (.badGrammar fault)
  | .ok g => .ok g

/-- the log entry for a description that has been read -/
def entry (d : Description) : Log.Entry :=
  ⟨.debug, s!"Read grammar with {d.nonTerminals.length} non-terminals, {d.terminals.length} terminals and " ++
    s!"{d.rules.length} rules"⟩

end Description

end CfgMembership
