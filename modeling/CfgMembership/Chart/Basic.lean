/-
Charts: one column for each position of an input, from before its first symbol to after its last.

Column 0 starts from the productions of the augmented start symbol; every other column starts from the items of the column
before it that waited for the symbol between the two. Where no item did, no later column can hold one either: recognition
failed at that symbol, and the columns left are empty.
-/
import CfgMembership.Chart.Column

namespace CfgMembership

/-- the columns, and the first position that no item reaches -/
structure Chart where
  columns : Array Column := #[]
  failedAt : Option Nat := none

namespace Chart

variable {σ : Type} [BEq σ] [Hashable σ]

/-- the items of a column that waited for a terminal, past it -/
def scanned (c : Column) (terminal : Nat) : List Item :=
  ((c.waitingFor .terminal).filter (·.next? = some terminal)).map Item.advance

def start (g : Grammar σ) : Chart :=
  let seeds := (g.productionsOf g.augmentedStart).map (Item.ofProduction · 0)
  { columns := #[(Column.ofList g seeds).close g #[]] }

def last (chart : Chart) : Column := chart.columns.back?.getD .empty

def extend (g : Grammar σ) (chart : Chart) : List Nat → Chart
  | [] => chart
  | terminal :: rest =>
    match scanned chart.last terminal with
    | [] =>
      { columns := chart.columns ++ Array.replicate (rest.length + 1) Column.empty
        failedAt := some chart.columns.size }
    | its =>
      let next := (Column.ofList g its).close g chart.columns
      extend g { chart with columns := chart.columns.push next } rest

/-- the chart of an input, given by the numbers of its symbols -/
def ofInput (g : Grammar σ) (input : List Nat) : Chart := (start g).extend g input

def accepts (g : Grammar σ) (chart : Chart) : Bool := chart.last.contains (Item.accepting g)

def closedColumns (chart : Chart) : List Column :=
  match chart.failedAt with
  | none => chart.columns.toList
  | some position => (chart.columns.extract 0 position).toList

end Chart

end CfgMembership
