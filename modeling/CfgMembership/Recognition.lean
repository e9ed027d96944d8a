/-
Recognition: does a word belong to the language of a grammar?

A word with a symbol that is no terminal is malformed at the first such symbol. For any other word the chart answers, and
the log shows it: the items of each column, and where recognition failed.
-/
import CfgMembership.Chart.Basic
import CfgMembership.Log

namespace CfgMembership

inductive Verdict where
  | accepted
  | rejected
  | malformed (position : Nat)
  deriving DecidableEq, Repr

/-- how a verdict came about -/
inductive Recognition (σ : Type) where
  | malformed (symbol : σ) (position : Nat)
  | charted (chart : Chart)

variable {σ : Type} [BEq σ] [Hashable σ]

namespace Grammar

/-- the first symbol of a word that is no terminal, and its position -/
def foreign? (g : Grammar σ) (word : List σ) : Option (σ × Nat) :=
  word.zipIdx.find? fun (symbol, _) => g.classify symbol ≠ .terminal

def recognize (g : Grammar σ) (word : List σ) : Recognition σ :=
  match g.foreign? word with
  | some (symbol, position) => .malformed symbol position
  | none => .charted (.ofInput g (word.filterMap g.table.id?))

end Grammar

namespace Recognition

def verdict (g : Grammar σ) : Recognition σ → Verdict
  | .malformed _ position => .malformed position
  | .charted chart => if chart.accepts g then .accepted else .rejected

variable [Written σ]

/-- the lines on one column: how many items it has, and each of them -/
def columnLines (g : Grammar σ) (position : Nat) (c : Column) : List String :=
  s!"SET {position}: {c.items.size} items" :: c.items.toList.map fun it => "    " ++ it.text g

/-- the lines on all columns that were closed -/
def chartLines (g : Grammar σ) (chart : Chart) : List String :=
  chart.closedColumns.zipIdx.flatMap fun (c, position) => columnLines g position c

def log (g : Grammar σ) (threshold : Log.Threshold) : Recognition σ → List Log.Entry
  | .malformed symbol position =>
    Log.entriesAt threshold .debug [s!"Symbol '{Written.text symbol}' at {position} is not a terminal"]
  | .charted chart =>
    Log.entriesAt threshold .trace (chartLines g chart) ++
      match chart.failedAt with
      | none => []
      | some position => Log.entriesAt threshold .debug [s!"Recognition failed at token {position}"]

end Recognition

def Grammar.check (g : Grammar σ) (word : List σ) : Verdict := (g.recognize word).verdict g

/-- the verdict on a text, whose characters are the symbols -/
def Grammar.checkText (g : Grammar Char) (text : String) : Verdict := g.check text.toList

end CfgMembership
