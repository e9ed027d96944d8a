/-
Answering queries.

A query list is a line with a count and then one word on each line. Every word gets the line YES when the grammar derives
it, and NO otherwise. `run` stops at the first failing read or write: what was written before it stays written. A write may
fail with part of an answer written.
-/
import CfgMembership.Recognition
import CfgMembership.Source.Basic
import CfgMembership.Text.Count
import CfgMembership.Text.Blank

namespace CfgMembership

/-! ## Output -/

/-- how a device takes text: with the text that it has taken and the characters that are to be written, one write takes some of
them from the front, or fails; and what flushing reports. A write that is only interrupted is made again and is none here.
Answers are ASCII, so that a character is a byte. -/
structure Device where
  take : (taken left : String) → Except IoError Nat
  flushFault : Option IoError := none

namespace Device

/-- takes everything -/
def unbounded : Device where
  take _ left := .ok left.length

/-- refuses what would take the text past a number of bytes -/
def bounded (limit : Nat) (error : IoError) : Device where
  take taken left := if limit < taken.utf8ByteSize + left.utf8ByteSize then .error error else .ok left.length

/-- has room for a number of characters, and takes what fits in -/
def slice (room : Nat) : Device where
  take taken left := .ok (min left.length (room - taken.length))

end Device

/-- where answers go: a device and the text that it has taken so far -/
structure Output extends Device where
  text : String := ""

namespace Output

def unbounded : Output := { toDevice := .unbounded }

def bounded (limit : Nat) (error : IoError) : Output := { toDevice := .bounded limit error }

def slice (room : Nat) : Output := { toDevice := .slice room }

def write (out : Output) (text : String) : Output := { out with text := out.text ++ text }

/-- writes until all characters are taken, one write fails or one takes none -/
def writeAll (out : Output) (left : List Char) : Option IoError × Output :=
  if left = [] then (none, out)
  else
    match out.take out.text (String.ofList left) with
    | .error error => (some error, out)
    | .ok 0 => (some .writeZero, out)
    | .ok (n + 1) => (out.write (String.ofList (left.take (n + 1)))).writeAll (left.drop (n + 1))
termination_by left.length
decreasing_by
  have := List.length_pos_iff.2 (by assumption : ¬left = [])
  rw [List.length_drop]
  omega

/-- why a text is not taken as a whole now -/
def fault? (out : Output) (text : String) : Option IoError := (out.writeAll text.toList).1

end Output

/-! ## Running -/

namespace Query

structure Metrics where
  total : Nat := 0
  accepted : Nat := 0
  rejected : Nat := 0
  malformed : Nat := 0
  deriving DecidableEq, Repr

def Metrics.record (m : Metrics) : Verdict → Metrics
  | .accepted => { m with total := m.total + 1, accepted := m.accepted + 1 }
  | .rejected => { m with total := m.total + 1, rejected := m.rejected + 1 }
  | .malformed _ => { m with total := m.total + 1, malformed := m.malformed + 1 }

inductive Fault where
  | unreadable (error : SourceError)
  | invalidCount (line : String)
  | unwritable (error : IoError)
  deriving DecidableEq, Repr

namespace Fault

def message : Fault → String
  | .unreadable error => "Failed to read query: " ++ error.message
  | .invalidCount line => s!"Invalid query count '{line}'"
  | .unwritable error => "Failed to write answer: " ++ error.message

/-- the messages of the errors behind this one, the nearest first -/
def causes : Fault → List String
  | .unreadable error => error.message :: error.causes
  | .invalidCount _ => []
  | .unwritable error => [error.message]

end Fault

def answerLine : Verdict → String
  | .accepted => "YES\n"
  | _ => "NO\n"

/-- the log entries of a query: those of its recognition, and where it is malformed -/
def entries (g : Grammar Char) (threshold : Log.Threshold) (word : String) (r : Recognition Char) : List Log.Entry :=
  r.log g threshold ++
    match r with
    | .malformed _ position =>
      Log.entriesAt threshold .debug [s!"Query '{word}' has a non-terminal at {position}"]
    | .charted _ => []

structure Progress (ς : Type) where
  source : ς
  output : Output
  metrics : Metrics := {}
  log : Array Log.Entry := #[]

variable {ς : Type} [LineSource ς]

/-- reads one query and answers it; gives the fault when it cannot -/
def answer (g : Grammar Char) (threshold : Log.Threshold) (p : Progress ς) : Option Fault × Progress ς :=
  match LineSource.nextLine p.source with
  | (.error error, source) => (some (.unreadable error), { p with source })
  | (.ok line, source) =>
    let word := Text.trim line
    let recognition := g.recognize word.toList
    let verdict := recognition.verdict g
    let p := { p with
      source
      metrics := p.metrics.record verdict
      log := p.log ++ (entries g threshold word recognition).toArray }
    match p.output.writeAll (answerLine verdict).toList with
    | (fault, output) => (fault.map .unwritable, { p with output })

def answerAll (g : Grammar Char) (threshold : Log.Threshold) : (left : Nat) → Progress ς → Option Fault × Progress ς
  | 0, p => (none, p)
  | left + 1, p =>
    match answer g threshold p with
    | (some fault, p) => (some fault, p)
    | (none, p) => answerAll g threshold left p

/-- reads the count and answers that many queries; the output is flushed at the end -/
def runOpen (g : Grammar Char) (threshold : Log.Threshold) (p : Progress ς) : Option Fault × Progress ς :=
  match LineSource.nextLine p.source with
  | (.error error, source) => (some (.unreadable error), { p with source })
  | (.ok line, source) =>
    match Text.count? (Text.trimChars line.toList) with
    | none => (some (.invalidCount line), { p with source })
    | some count =>
      match answerAll g threshold count { p with source } with
      | (some fault, p) => (some fault, p)
      | (none, p) => (p.output.flushFault.map .unwritable, p)

structure Outcome (ς : Type) where
  result : Except Fault Metrics
  output : Output
  log : List Log.Entry
  source : ς

/-- opens a source of queries, answers them and closes the source -/
def run (g : Grammar Char) (threshold : Log.Threshold) (source : ς) (output : Output) : Outcome ς :=
  match LineSource.start source with
  | (.error error, source) => ⟨.error (.unreadable error), output, [], source⟩
  | (.ok (), source) =>
    let (fault, p) := runOpen g threshold { source, output }
    let result := match fault with
      | none => .ok p.metrics
      | some fault => .error fault
    ⟨result, p.output, p.log.toList, LineSource.finish p.source⟩

end Query

end CfgMembership
