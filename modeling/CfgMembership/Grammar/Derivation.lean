/-
What a grammar derives.

A step replaces one symbol of a sentential form by the body of one of its productions, and a form derives another when
steps lead from one to the other. The language of a grammar is the set of the words of terminals that its start symbol
derives.
-/
import CfgMembership.Grammar.Basic

namespace CfgMembership.Grammar

variable {σ : Type} [BEq σ] [Hashable σ]

/-- one symbol gives way to the body of one of its productions -/
inductive Step (g : Grammar σ) : List Nat → List Nat → Prop where
  | replace {lhs : Nat} {p : Production} (before after : List Nat) (mem : p ∈ g.productionsOf lhs) :
    Step g (before ++ lhs :: after) (before ++ p.rhs ++ after)

inductive Derives (g : Grammar σ) : List Nat → List Nat → Prop where
  | refl (form : List Nat) : Derives g form form
  | step {first second last : List Nat} : Step g first second → Derives g second last → Derives g first last

/-- whether the start symbol derives a word of terminals -/
def Generates (g : Grammar σ) (word : List σ) : Prop :=
  (∀ s ∈ word, g.classify s = .terminal) ∧ g.Derives [g.start] (word.filterMap g.table.id?)

variable {g : Grammar σ}

theorem Derives.trans {a b c : List Nat} (hab : g.Derives a b) (hbc : g.Derives b c) : g.Derives a c := by
  induction hab with
  | refl => exact hbc
  | step h _ ih => exact .step h (ih hbc)

theorem Step.frame {a b : List Nat} (before after : List Nat) (h : g.Step a b) :
    g.Step (before ++ a ++ after) (before ++ b ++ after) := by
  cases h with
  | replace l r mem => simpa using Step.replace (before ++ l) (r ++ after) mem

theorem Derives.frame {a b : List Nat} (before after : List Nat) (h : g.Derives a b) :
    g.Derives (before ++ a ++ after) (before ++ b ++ after) := by
  induction h with
  | refl => exact .refl _
  | step h _ ih => exact .step (h.frame before after) ih

/-- forms side by side derive side by side -/
theorem Derives.append {a b c d : List Nat} (hab : g.Derives a b) (hcd : g.Derives c d) :
    g.Derives (a ++ c) (b ++ d) := by
  have left := hab.frame [] c
  have right := hcd.frame b []
  simp only [List.nil_append, List.append_nil] at left right
  exact left.trans right

end CfgMembership.Grammar
