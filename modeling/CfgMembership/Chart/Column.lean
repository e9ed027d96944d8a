/-
Chart columns.

A column keeps its items in the order they were added, and beside them the set of them, an index by what they wait for, and
a worklist of the items whose consequences have yet to be drawn. `insert` updates all four together and adds no item twice.

`close` works the worklist off. An item at a non-terminal predicts that symbol's productions here; one at its end completes
the items that waited for its head where it began. A symbol may complete over no input at all before an item waits for it,
so an item that waits for a symbol deriving the empty word is moved past it when the symbol is predicted.
-/
import CfgMembership.Chart.Item

namespace CfgMembership

/-- indices to work off, first in first out -/
structure Worklist where
  indices : Array Nat := #[]
  taken : Nat := 0
  deriving Repr

namespace Worklist

def pending (w : Worklist) : List Nat := w.indices.toList.drop w.taken

def push (w : Worklist) (index : Nat) : Worklist := { w with indices := w.indices.push index }

def take? (w : Worklist) : Option (Nat × Worklist) :=
  w.indices[w.taken]?.map fun index => (index, { w with taken := w.taken + 1 })

end Worklist

/-- one column of a chart; a sealed column takes no more items -/
structure Column where
  items : Array Item := #[]
  seen : Std.HashSet Item := ∅
  waiting : Std.HashMap Expected (Array Nat) := ∅
  worklist : Worklist := {}
  sealed : Bool := false

namespace Column

def empty : Column := {}

instance : Inhabited Column := ⟨empty⟩

def contains (c : Column) (it : Item) : Bool := c.seen.contains it

/-- the items that wait for something, in the order they were added -/
def waitingFor (c : Column) (e : Expected) : List Item :=
  ((c.waiting[e]?).getD #[]).toList.filterMap (c.items[·]?)

def sealOff (c : Column) : Column := { c with worklist := {}, sealed := true }

variable {σ : Type} [BEq σ] [Hashable σ]

/-- adds an item, unless an equal one is there; an item at a terminal leaves nothing to do in this column -/
def insert (g : Grammar σ) (c : Column) (it : Item) : Column :=
  if c.contains it then c
  else
    let index := c.items.size
    let e := it.expected g
    { c with
      items := c.items.push it
      seen := c.seen.insert it
      waiting := c.waiting.alter e fun indices => some ((indices.getD #[]).push index)
      worklist := if e = .terminal then c.worklist else c.worklist.push index }

def insertAll (g : Grammar σ) (c : Column) (its : List Item) : Column :=
  its.foldl (insert g) c

def ofList (g : Grammar σ) (its : List Item) : Column := empty.insertAll g its

/-! ## Closing -/

/-- what follows from an item that waits for a symbol: the productions of the symbol begin here, and the item is past the
symbol when the symbol derives the empty word -/
def predicted (g : Grammar σ) (cursor : Nat) (it : Item) (symbol : Nat) : List Item :=
  (g.productionsOf symbol).map (Item.ofProduction · cursor) ++ if g.isNullable symbol then [it.advance] else []

/-- what follows from an item at its end: the items that waited for its head where it began are past it. The columns before
this one are `earlier`; an item that began here looks into this column. -/
def completed (earlier : Array Column) (c : Column) (it : Item) : List Item :=
  (((earlier[it.origin]?).getD c).waitingFor (.nonTerminal it.head)).map Item.advance

def consequences (g : Grammar σ) (earlier : Array Column) (c : Column) (it : Item) : List Item :=
  match it.expected g with
  | .nothing => completed earlier c it
  | .nonTerminal symbol => predicted g earlier.size it symbol
  | .terminal => []

/-- adds what follows from the item with an index -/
def workOff (g : Grammar σ) (earlier : Array Column) (c : Column) (index : Nat) : Column :=
  match c.items[index]? with
  | none => c
  | some it =>
    let its := consequences g earlier c it
    c.insertAll g its

/-- works off indices from the front of the worklist until it is empty, `fuel` of them at most -/
def drain (g : Grammar σ) (earlier : Array Column) : Nat → Column → Column
  | 0, c => c
  | fuel + 1, c =>
    match c.worklist.take? with
    | none => c
    | some (index, worklist) => drain g earlier fuel ({ c with worklist }.workOff g earlier index)

/-- closes the column after `earlier`. Its items differ in production, dot or origin, and the origin is not past the
column, so there are no more steps than dots times origins. -/
def close (g : Grammar σ) (earlier : Array Column) (c : Column) : Column :=
  (c.drain g earlier (g.dottedCount * (earlier.size + 1))).sealOff

end Column

end CfgMembership
