/-
Symbol tables: symbols numbered in the order in which they are first seen.

`intern` gives a symbol its number, the next free one if the symbol is new; `id?` and `symbol?` look up without adding.
-/
import Std.Data.HashMap

namespace CfgMembership

/-- the symbols seen, by number, and the number of each -/
structure SymbolTable (σ : Type) [BEq σ] [Hashable σ] where
  symbols : Array σ := #[]
  ids : Std.HashMap σ Nat := ∅

namespace SymbolTable

variable {σ : Type} [BEq σ] [Hashable σ]

def empty : SymbolTable σ := {}

instance : Inhabited (SymbolTable σ) := ⟨empty⟩

def size (t : SymbolTable σ) : Nat := t.symbols.size

def id? (t : SymbolTable σ) (s : σ) : Option Nat := t.ids[s]?

def symbol? (t : SymbolTable σ) (id : Nat) : Option σ := t.symbols[id]?

/-- the number of a symbol, which a new symbol gets now -/
def intern (t : SymbolTable σ) (s : σ) : Nat × SymbolTable σ :=
  match t.id? s with
  | some id => (id, t)
  | none => (t.size, { symbols := t.symbols.push s, ids := t.ids.insert s t.size })

def internAll (t : SymbolTable σ) : List σ → List Nat × SymbolTable σ
  | [] => ([], t)
  | s :: rest =>
    let (id, t) := t.intern s
    let (ids, t) := t.internAll rest
    (id :: ids, t)

end SymbolTable

end CfgMembership
