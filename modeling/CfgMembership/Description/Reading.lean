/-
Reading a grammar description from a source of lines.

Each kind of line has its own function from the text of the line; `Description.read` asks the source for the lines in
order and stops at the first fault.
-/
import CfgMembership.Description.Basic
import CfgMembership.Text.Count
import CfgMembership.Text.Word

namespace CfgMembership.Description

/-! ## Single lines -/

structure Counts where
  nonTerminals : Nat
  terminals : Nat
  rules : Nat
  deriving DecidableEq, Repr

/-- the next count among the words of a line, and the words after it -/
def nextCount (line : String) (words : List (List Char)) : Except Fault (Nat × List (List Char)) :=
  match words with
  | [] => .error (.missingCount line)
  | word :: rest =>
    match Text.count? word with
    | none => .error (.invalidCount (String.ofList word))
    | some count => .ok (count, rest)

/-- three counts; anything may follow them -/
def counts (line : String) : Except Fault Counts := do
  let (nonTerminals, words) ← nextCount line (Text.words line.toList)
  let (terminals, words) ← nextCount line words
  let (rules, _) ← nextCount line words
  return ⟨nonTerminals, terminals, rules⟩

def singleWord (line : String) : Except Fault (List Char) :=
  match Text.words line.toList with
  | [] => .error .missingWord
  | [word] => .ok word
  | word :: _ :: _ => .error (.unexpectedInput (String.ofList word))

/-- characters without repetition, each at its first occurrence -/
def distinct (cs : List Char) : List Char :=
  cs.foldl (fun found c => if found.contains c then found else found ++ [c]) []

/-- the characters of an alphabet line, all of them allowed, and as many different ones as were declared -/
def alphabet (which : Alphabet) (expected : Nat) (line : String) : Except Fault (List Char) := do
  let word ← singleWord line
  match word.find? fun c => !which.allows c with
  | some c => .error (.badCharacter which c)
  | none =>
    let cs := distinct word
    if cs.length = expected then .ok cs else .error (.badSize which expected cs.length)

/-- the character of a word that is one declared non-terminal -/
def declared? (nonTerminals : List Char) (word : List Char) : Option Char :=
  match word with
  | [c] => if nonTerminals.contains c then some c else none
  | _ => none

/-- the body of a rule, all of its characters declared -/
def ruleBody (nonTerminals terminals : List Char) (body : List Char) : Except RuleFault (List Char) :=
  match body.find? fun c => !(nonTerminals.contains c || terminals.contains c) with
  | some c => .error (.undeclared c)
  | none => .ok body

/-- a rule line: a declared non-terminal, the arrow, and at most one word of declared characters -/
def rule (nonTerminals terminals : List Char) (line : String) : Except RuleFault Rule :=
  match Text.words line.toList with
  | [] => .error .empty
  | head :: rest =>
    match declared? nonTerminals head with
    | none => .error (.badHead (String.ofList head))
    | some head =>
      match rest with
      | [] => .error .noArrow
      | arrow :: rest =>
        if arrow ≠ ['-', '>'] then .error (.badArrow (String.ofList arrow))
        else
          match rest with
          | [] => .ok ⟨head, []⟩
          | [body] => (ruleBody nonTerminals terminals body).map (Rule.mk head)
          | _ => .error .trailing

def startSymbol (nonTerminals : List Char) (line : String) : Except Fault Char := do
  let word ← singleWord line
  match declared? nonTerminals word with
  | some c => .ok c
  | none => .error (.badStart (String.ofList word))

/-! ## All lines -/

variable {ς : Type} [LineSource ς]

/-- computations that ask a source for lines and stop at the first fault -/
abbrev Reading (ς α : Type) := ExceptT Fault (StateM ς) α

def readLine {α : Type} (parse : String → Except Fault α) : Reading ς α := fun source =>
  match LineSource.nextLine source with
  | (.error error, source) => (.error (.unreadable error), source)
  | (.ok line, source) => (parse line, source)

/-- reads as many rules as are left, the next of which has a given number -/
def readRules (nonTerminals terminals : List Char) (number : Nat) :
    (left : Nat) → (before : Array Rule) → ς → Except Fault (List Rule) × ς
  | 0, before, source => (.ok before.toList, source)
  | left + 1, before, source =>
    match LineSource.nextLine source with
    | (.error error, source) => (.error (.badRule number (.unreadable error)), source)
    | (.ok line, source) =>
      match rule nonTerminals terminals line with
      | .error fault => (.error (.badRule number fault), source)
      | .ok rule => readRules nonTerminals terminals (number + 1) left (before.push rule) source

/-- reads a description from an open source -/
def readLines : Reading ς Description := do
  let counts ← readLine counts
  let nonTerminals ← readLine (alphabet .nonTerminal counts.nonTerminals)
  let terminals ← readLine (alphabet .terminal counts.terminals)
  let rules ← ExceptT.mk (readRules nonTerminals terminals 1 counts.rules #[])
  let start ← readLine (startSymbol nonTerminals)
  return ⟨nonTerminals, terminals, rules, start⟩

/-- opens a source, reads a description from it and closes it -/
def read (source : ς) : Except Fault Description × ς :=
  match LineSource.start source with
  | (.error error, source) => (.error (.unreadable error), source)
  | (.ok (), source) =>
    let (result, source) := readLines.run source
    (result, LineSource.finish source)

end CfgMembership.Description

namespace CfgMembership

variable {ς : Type} [LineSource ς]

structure GrammarReading (ς : Type) where
  result : Except Description.Fault (Grammar Char)
  log : List Log.Entry
  source : ς

def Grammar.read (threshold : Log.Threshold) (source : ς) : GrammarReading ς :=
  match Description.read source with
  | (.error fault, source) => ⟨.error fault, [], source⟩
  | (.ok d, source) => ⟨d.grammar, [d.entry].filter fun entry => threshold.keeps entry.level, source⟩

end CfgMembership
