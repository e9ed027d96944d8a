/-
What a grammar holds, by the symbols of its declarations, when equal symbols are the same.

`exists_ofDeclarations_iff`: declarations make a grammar just when they are consistent. `represents_of_ofDeclarations`: the
grammar then has the symbols that were mentioned, numbered in that order, each of the kind it was declared as, with the
bodies declared for it in their order, and the start symbol marked last.
-/
import CfgMembership.Proofs.Grammar.Reflects

namespace CfgMembership

variable {σ : Type}

/-! ## Declarations -/

namespace Declaration

variable {ds : List (Declaration σ)}

/-- all symbols that declarations mention, each where it is first mentioned -/
def symbols [BEq σ] (ds : List (Declaration σ)) : List σ := (ds.flatMap mentions).eraseDups

/-- declarations that fit together: the start symbol is a non-terminal, no symbol is of both kinds, left sides are
non-terminals, and every symbol of a body is of some kind -/
structure Consistent (ds : List (Declaration σ)) : Prop where
  start : ∃ s, start? ds = some s ∧ .nonTerminal s ∈ ds
  kinds : ∀ s, .terminal s ∈ ds → .nonTerminal s ∉ ds
  productions : ∀ lhs rhs, .production lhs rhs ∈ ds →
    .nonTerminal lhs ∈ ds ∧ ∀ s ∈ rhs, .nonTerminal s ∈ ds ∨ .terminal s ∈ ds

section Lawful

variable [BEq σ] [LawfulBEq σ] {s : σ}

theorem declares_terminal_iff_mem : Declares ds (.terminal s) ↔ .terminal s ∈ ds := by
  simp [declares_terminal_iff]

theorem declares_nonTerminal_iff_mem : Declares ds (.nonTerminal s) ↔ .nonTerminal s ∈ ds := by
  simp [declares_nonTerminal_iff]

theorem consistent_iff : Consistent ds ↔ (∃ s, start? ds = some s ∧ Declares ds (.nonTerminal s)) ∧
    (∀ s, ¬Ambiguous ds s) ∧ ∀ p ∈ productions ds, Fits ds p := by
  simp only [Ambiguous, Fits, Known, declares_terminal_iff_mem, declares_nonTerminal_iff_mem, not_and]
  constructor
  · intro h
    exact ⟨h.start, h.kinds, fun p hp => h.productions p.1 p.2 (mem_productions.1 hp)⟩
  · rintro ⟨hstart, hkinds, hproductions⟩
    exact ⟨hstart, hkinds, fun lhs rhs hmem => hproductions (lhs, rhs) (mem_productions.2 hmem)⟩

end Lawful

end Declaration

namespace Grammar

variable [BEq σ] [Hashable σ] {ds : List (Declaration σ)}

/-! ## The grammar that is made -/

/-- a grammar holds what was declared and, for the augmented start symbol, one production more -/
structure Represents (g : Grammar σ) (ds : List (Declaration σ)) : Prop where
  table : g.table.Lists (Declaration.symbols ds)
  start : ∃ s, Declaration.start? ds = some s ∧ g.table.id? s = some g.start
  nonTerminal_iff : ∀ id, g.kind id = .nonTerminal ↔
    (∃ s, .nonTerminal s ∈ ds ∧ g.table.id? s = some id) ∨ id = g.augmentedStart
  terminal_iff : ∀ id, g.kind id = .terminal ↔ ∃ s, .terminal s ∈ ds ∧ g.table.id? s = some id
  bodies_eq : ∀ s, g.bodies s = ((Declaration.productions ds).filter (·.1 == s)).map fun p => p.2.map some
  lawful : g.Lawful

section Lawful

variable [LawfulBEq σ]

theorem Builder.lists_declareAll {b : Builder σ} {symbols : List σ} (h : b.table.Lists symbols.eraseDups)
    (more : List (Declaration σ)) :
    (b.declareAll more).table.Lists (symbols ++ more.flatMap Declaration.mentions).eraseDups := by
  induction more generalizing b symbols with
  | nil => rwa [List.flatMap_nil, List.append_nil]
  | cons d more ih =>
    have hd : (b.declare d).table.Lists (symbols ++ d.mentions).eraseDups := by
      rw [table_declare]
      exact h.internAll d.mentions
    have := ih hd
    rwa [List.append_assoc] at this

variable [LawfulHashable σ] [Written σ]

/-- **Declarations make a grammar just when they are consistent.** -/
theorem exists_ofDeclarations_iff : (∃ g, ofDeclarations ds = .ok g) ↔ Declaration.Consistent ds := by
  rw [exists_ofDeclarations_iff_fits, Declaration.consistent_iff]

theorem Builder.Took.represents {b : Builder σ} {start : Nat} (h : b.Took ds)
    (hlists : b.table.Lists (Declaration.symbols ds)) (hstart : b.start = some start)
    (hfault : b.fault? start = none) : (b.grammar start).Represents ds where
  table := hlists
  start := h.records.start_eq_some_iff.1 hstart
  nonTerminal_iff id := by
    rw [Builder.kind_grammar, h.sorts.nonTerminals.mem_iff, or_comm]
    rfl
  terminal_iff id := by
    obtain ⟨hambiguous, -, -⟩ := Builder.fault?_eq_none_iff.1 hfault
    have hnot := (Builder.ambiguous?_eq_none_iff h.bounded).1 hambiguous
    refine (Builder.kind_grammar_eq_terminal_iff b start id).trans (.trans ?_ (h.sorts.terminals.mem_iff id))
    constructor
    · rintro ⟨-, -, hid⟩
      exact hid
    · intro hid
      exact ⟨Nat.ne_of_lt (h.bounded.terminals id hid), hnot id hid, hid⟩
  bodies_eq s := by
    have hspelled : (fun s' => some (Declaration.spelling ds s')) = some :=
      funext fun s' => congrArg some (Declaration.spelling_eq ds s')
    rw [h.bodies_grammar, hspelled]
  lawful := Builder.lawful_grammar h.bounded hfault

/-- **A grammar holds what was declared.** -/
theorem represents_of_ofDeclarations {g : Grammar σ} (h : ofDeclarations ds = .ok g) : g.Represents ds := by
  obtain ⟨start, hstart, hfault, rfl⟩ := Builder.build_eq_ok_iff.1 h
  have hempty : (Builder.empty : Builder σ).table.Lists ([] : List σ).eraseDups := SymbolTable.lists_empty
  exact (Builder.took_declareAll ds).represents (Builder.lists_declareAll hempty ds) hstart hfault

end Lawful

end Grammar

end CfgMembership
