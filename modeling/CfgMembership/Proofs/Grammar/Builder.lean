/-
What declarations make.

Every number that a builder holds is below the size of its symbol table (`Builder.Bounded`), which is the number of
the augmented start symbol. `build_eq_ok_iff` opens a build that succeeds, and `mem_productionsOf` says which
productions the grammar has for a left side.
-/
import CfgMembership.Grammar.Builder
import CfgMembership.Proofs.SymbolTable

namespace CfgMembership.Grammar

variable {σ : Type} [BEq σ] [Hashable σ]

theorem kind_eq_nonTerminal_iff {g : Grammar σ} {id : Nat} : g.kind id = .nonTerminal ↔ id ∈ g.nonTerminals := by
  rw [← Std.HashSet.contains_iff_mem]
  unfold kind
  split
  · rename_i hid
    simp [hid]
  · rename_i hid
    split <;> simp [hid]

theorem kind_eq_terminal_iff {g : Grammar σ} {id : Nat} :
    g.kind id = .terminal ↔ id ∉ g.nonTerminals ∧ id ∈ g.terminals := by
  rw [← Std.HashSet.contains_iff_mem, ← Std.HashSet.contains_iff_mem]
  unfold kind
  split
  · rename_i hid
    simp [hid]
  · rename_i hid
    split <;> simp_all

theorem classify_eq_terminal_iff {g : Grammar σ} {s : σ} :
    g.classify s = .terminal ↔ ∃ id, g.table.id? s = some id ∧ g.kind id = .terminal := by
  unfold classify
  cases g.table.id? s <;> simp

namespace Builder

variable {b : Builder σ}

/-! ## Numbers in use -/

/-- all numbers in use belong to symbols of the table -/
structure Bounded (b : Builder σ) : Prop where
  table : b.table.Bounded
  terminals : ∀ id ∈ b.terminals, id < b.table.size
  nonTerminals : ∀ id ∈ b.nonTerminals, id < b.table.size
  productions : ∀ p ∈ b.productions, p.lhs < b.table.size ∧ ∀ s ∈ p.rhs, s < b.table.size
  start : ∀ id, b.start = some id → id < b.table.size

theorem bounded_empty : (empty : Builder σ).Bounded where
  table := SymbolTable.bounded_empty
  terminals := by simp [empty]
  nonTerminals := by simp [empty]
  productions := by simp [empty]
  start := by simp [empty]

/-- a table with more symbols holds the numbers in use as well -/
theorem Bounded.withTable (h : b.Bounded) {table : SymbolTable σ} (ht : table.Bounded)
    (hle : b.table.size ≤ table.size) : ({ b with table } : Builder σ).Bounded where
  table := ht
  terminals id hid := Nat.lt_of_lt_of_le (h.terminals id hid) hle
  nonTerminals id hid := Nat.lt_of_lt_of_le (h.nonTerminals id hid) hle
  productions p hp :=
    ⟨Nat.lt_of_lt_of_le (h.productions p hp).1 hle, fun s hs => Nat.lt_of_lt_of_le ((h.productions p hp).2 s hs) hle⟩
  start id hid := Nat.lt_of_lt_of_le (h.start id hid) hle

section Lawful

variable [EquivBEq σ] [LawfulHashable σ]

theorem Bounded.withIntern (h : b.Bounded) (s : σ) : ({ b with table := (b.table.intern s).2 } : Builder σ).Bounded :=
  h.withTable (h.table.intern s) (SymbolTable.size_le_intern _ s)

theorem Bounded.declare (h : b.Bounded) (d : Declaration σ) : (b.declare d).Bounded := by
  cases d with
  | terminal s =>
    refine { h.withIntern s with terminals := fun id hid => ?_ }
    rcases Std.HashSet.mem_insert.1 hid with hid | hid
    · exact beq_iff_eq.1 hid ▸ h.table.intern_lt s
    · exact (h.withIntern s).terminals id hid
  | nonTerminal s =>
    refine { h.withIntern s with nonTerminals := fun id hid => ?_ }
    rcases Std.HashSet.mem_insert.1 hid with hid | hid
    · exact beq_iff_eq.1 hid ▸ h.table.intern_lt s
    · exact (h.withIntern s).nonTerminals id hid
  | start s =>
    refine { h.withIntern s with start := fun id hid => ?_ }
    cases hid
    exact h.table.intern_lt s
  | production lhs rhs =>
    have hlhs := h.table.intern lhs
    have hle := SymbolTable.size_le_internAll (b.table.intern lhs).2 rhs
    have htable := (h.withIntern lhs).withTable (hlhs.internAll rhs) hle
    refine { htable with productions := fun p hp => ?_ }
    rcases Array.mem_push.1 hp with hp | rfl
    · exact htable.productions p hp
    · exact ⟨Nat.lt_of_lt_of_le (h.table.intern_lt lhs) hle, hlhs.internAll_lt rhs⟩

theorem Bounded.declareAll (h : b.Bounded) (ds : List (Declaration σ)) : (b.declareAll ds).Bounded := by
  induction ds generalizing b with
  | nil => exact h
  | cons d ds ih => exact ih (h.declare d)

end Lawful

/-! ## Builds that succeed -/

section Build

variable [Written σ]

theorem productionFault?_eq_none_iff {p : Production} :
    b.productionFault? p = none ↔ p.lhs ∈ b.nonTerminals ∧ ∀ s ∈ p.rhs, s ∈ b.nonTerminals ∨ s ∈ b.terminals := by
  unfold productionFault?
  split
  · rename_i hlhs
    simp only [Std.HashSet.contains_iff_mem.1 hlhs, Option.map_eq_none_iff, List.find?_eq_none, true_and]
    refine forall₂_congr fun s _ => ?_
    simp [Decidable.or_iff_not_imp_left]
  · rename_i hlhs
    simp [mt Std.HashSet.contains_iff_mem.2 hlhs]

/-- a build succeeds when there is a start symbol and nothing is wrong under it -/
theorem build_eq_ok_iff {g : Grammar σ} :
    b.build = .ok g ↔ ∃ start, b.start = some start ∧ b.fault? start = none ∧ b.grammar start = g := by
  unfold build
  split
  · rename_i hstart
    simp [hstart]
  · rename_i start hstart
    simp only [hstart, Option.some.injEq, exists_eq_left']
    split
    · rename_i fault hfault
      simp [hfault]
    · rename_i hfault
      simp [hfault]

omit [Written σ] in
/-- under a bounded builder, no symbol is ambiguous when no number is in both sets -/
theorem ambiguous?_eq_none_iff (h : b.Bounded) : b.ambiguous? = none ↔ ∀ id ∈ b.terminals, id ∉ b.nonTerminals := by
  simp only [ambiguous?, List.find?_eq_none, List.mem_range, Bool.and_eq_true, Std.HashSet.contains_iff_mem, not_and]
  exact ⟨fun hall id hid => hall id (h.terminals id hid) hid, fun hall id _ => hall id⟩

/-- nothing is wrong under a start symbol when it is a non-terminal, no symbol is ambiguous and all productions fit the
declarations -/
theorem fault?_eq_none_iff {start : Nat} : b.fault? start = none ↔ b.ambiguous? = none ∧ start ∈ b.nonTerminals ∧
    ∀ p ∈ b.productions, p.lhs ∈ b.nonTerminals ∧ ∀ s ∈ p.rhs, s ∈ b.nonTerminals ∨ s ∈ b.terminals := by
  unfold fault?
  split
  · rename_i id hid
    simp [hid]
  · rename_i hnone
    split
    · rename_i hstart
      rw [Std.HashSet.contains_iff_mem] at hstart
      simp only [hnone, hstart, List.findSome?_eq_none_iff, productionFault?_eq_none_iff, true_and, Array.mem_def]
    · rename_i hstart
      rw [Std.HashSet.contains_iff_mem] at hstart
      simp [hstart]

end Build

/-! ## The grammar that is made -/

def allProductions (b : Builder σ) (start : Nat) : List Production := b.productions.toList ++ [⟨b.table.size, [start]⟩]

theorem mem_allProductions {start : Nat} {p : Production} :
    p ∈ b.allProductions start ↔ p ∈ b.productions ∨ p = ⟨b.table.size, [start]⟩ := by
  simp [allProductions]

theorem productionsOf_grammar (h : b.Bounded) (start lhs : Nat) :
    (b.grammar start).productionsOf lhs = (b.allProductions start).filter (·.lhs == lhs) := by
  by_cases hlhs : lhs < b.table.size + 1
  · simp [grammar, productionsOf, allProductions, hlhs]
  · have hnone : (b.allProductions start).filter (·.lhs == lhs) = [] := by
      rw [List.filter_eq_nil_iff]
      intro p hp
      rcases mem_allProductions.1 hp with hp | rfl
      · have := (h.productions p hp).1
        simp only [beq_iff_eq]
        omega
      · simp only [beq_iff_eq]
        omega
    rw [hnone]
    simp [grammar, productionsOf, hlhs]

theorem mem_productionsOf (h : b.Bounded) {start lhs : Nat} {p : Production} :
    p ∈ (b.grammar start).productionsOf lhs ↔ p ∈ b.allProductions start ∧ p.lhs = lhs := by
  rw [productionsOf_grammar h]
  simp

/-- the size of the table is no number of a declared symbol, so that the augmented start symbol has one production -/
theorem productionsOf_augmentedStart (h : b.Bounded) (start : Nat) :
    (b.grammar start).productionsOf b.table.size = [⟨b.table.size, [start]⟩] := by
  rw [productionsOf_grammar h, allProductions, List.filter_append]
  have hnone : b.productions.toList.filter (·.lhs == b.table.size) = [] := by
    rw [List.filter_eq_nil_iff]
    intro p hp
    have := (h.productions p (Array.mem_def.2 hp)).1
    simp only [beq_iff_eq]
    omega
  rw [hnone]
  simp

/-- the non-terminals are those declared and the augmented start symbol -/
theorem kind_grammar (b : Builder σ) (start id : Nat) :
    (b.grammar start).kind id = .nonTerminal ↔ id = b.table.size ∨ id ∈ b.nonTerminals := by
  rw [kind_eq_nonTerminal_iff]
  simp only [grammar, Std.HashSet.mem_insert, beq_iff_eq]
  exact or_congr_left eq_comm

theorem kind_grammar_eq_terminal_iff (b : Builder σ) (start id : Nat) :
    (b.grammar start).kind id = .terminal ↔ id ≠ b.table.size ∧ id ∉ b.nonTerminals ∧ id ∈ b.terminals := by
  rw [kind_eq_terminal_iff]
  simp only [grammar, Std.HashSet.mem_insert, beq_iff_eq, not_or, and_assoc]
  exact and_congr_left' ne_comm

end Builder

end CfgMembership.Grammar
