/-
What a form comes to, symbol by symbol.

`Derives` replaces symbols anywhere and in any order. For a word of terminals the order does not matter: `Yields`
reads a form from left to right, each terminal standing for itself and each other symbol giving way to one of its
bodies, and `yields_iff_derives` says that both lead to the same words.

`Reaches form word symbol` follows one occurrence of a symbol down from a form: what stands to the left of it comes to
the word, and what stands to the right is left open. `Derives.reaches` finds that way for every derived form that
begins with a word of terminals and goes on with the symbol.
-/
import Mathlib.Data.List.Basic
import CfgMembership.Grammar.Derivation

namespace CfgMembership.Grammar

variable {σ : Type} [BEq σ] [Hashable σ]

/-- some form derived from the start symbol begins with these symbols -/
def Viable (g : Grammar σ) (front : List Nat) : Prop := ∃ after, g.Derives [g.start] (front ++ after)

/-! ## Words of a form -/

/-- the symbols of a form come, one after the other, to the parts of a word -/
inductive Yields (g : Grammar σ) : List Nat → List Nat → Prop where
  | nil : Yields g [] []
  | terminal {t : Nat} {form word : List Nat} (isTerminal : g.kind t = .terminal) (rest : Yields g form word) :
    Yields g (t :: form) (t :: word)
  | nonTerminal {lhs : Nat} {p : Production} {form front back : List Nat} (mem : p ∈ g.productionsOf lhs)
    (body : Yields g p.rhs front) (rest : Yields g form back) : Yields g (lhs :: form) (front ++ back)

variable {g : Grammar σ}

theorem Yields.derives {form word : List Nat} (h : g.Yields form word) : g.Derives form word := by
  induction h with
  | nil => exact .refl []
  | terminal _ _ ih => exact Derives.append (.refl [_]) ih
  | nonTerminal mem _ _ body rest =>
    have first := Step.replace [] [] mem
    simp only [List.nil_append, List.append_nil] at first
    exact Derives.append (.step first body) rest

theorem yields_self {word : List Nat} (h : ∀ t ∈ word, g.kind t = .terminal) : g.Yields word word := by
  induction word with
  | nil => exact .nil
  | cons t word ih => exact .terminal (h t List.mem_cons_self) (ih fun s hs => h s (List.mem_cons_of_mem t hs))

theorem Yields.append {a b u v : List Nat} (ha : g.Yields a u) (hb : g.Yields b v) : g.Yields (a ++ b) (u ++ v) := by
  induction ha with
  | nil => exact hb
  | terminal isTerminal _ ih => exact .terminal isTerminal ih
  | nonTerminal mem body _ _ ih =>
    rw [List.append_assoc]
    exact .nonTerminal mem body ih

/-- the word of two forms side by side falls into the words of the two -/
theorem Yields.split {a b word : List Nat} (h : g.Yields (a ++ b) word) :
    ∃ u v, word = u ++ v ∧ g.Yields a u ∧ g.Yields b v := by
  induction a generalizing word with
  | nil => exact ⟨[], word, rfl, .nil, h⟩
  | cons s a ih =>
    cases h with
    | terminal isTerminal rest =>
      obtain ⟨u, v, rfl, ha, hb⟩ := ih rest
      exact ⟨s :: u, v, rfl, .terminal isTerminal ha, hb⟩
    | nonTerminal mem body rest =>
      obtain ⟨u, v, rfl, ha, hb⟩ := ih rest
      exact ⟨_ ++ u, v, (List.append_assoc ..).symm, .nonTerminal mem body ha, hb⟩

/-- a symbol comes to all that a body of it comes to -/
theorem Yields.fold {lhs : Nat} {p : Production} {before after word : List Nat} (mem : p ∈ g.productionsOf lhs)
    (h : g.Yields (before ++ p.rhs ++ after) word) : g.Yields (before ++ lhs :: after) word := by
  obtain ⟨uv, w, rfl, hleft, hafter⟩ := h.split
  obtain ⟨u, v, rfl, hbefore, hbody⟩ := hleft.split
  rw [List.append_assoc]
  exact hbefore.append (.nonTerminal mem hbody hafter)

theorem Derives.yields {form word : List Nat} (h : g.Derives form word) (hw : ∀ t ∈ word, g.kind t = .terminal) :
    g.Yields form word := by
  induction h with
  | refl => exact yields_self hw
  | step first _ ih =>
    cases first with
    | replace before after mem => exact (ih hw).fold mem

theorem yields_iff_derives {form word : List Nat} (hw : ∀ t ∈ word, g.kind t = .terminal) :
    g.Yields form word ↔ g.Derives form word :=
  ⟨Yields.derives, fun h => h.yields hw⟩

/-! ## The way to one symbol -/

/-- some occurrence of a symbol comes from a form, and all that stands to the left of it comes to a word -/
inductive Reaches (g : Grammar σ) : List Nat → List Nat → Nat → Prop where
  | here {before after word : List Nat} {symbol : Nat} (left : g.Yields before word) :
    Reaches g (before ++ symbol :: after) word symbol
  | inside {before after front back : List Nat} {lhs symbol : Nat} {p : Production} (left : g.Yields before front)
    (mem : p ∈ g.productionsOf lhs) (inner : Reaches g p.rhs back symbol) :
    Reaches g (before ++ lhs :: after) (front ++ back) symbol

/-- where a symbol of a form stands when the form has three parts -/
theorem mem_parts {a b c before after : List Nat} {s : Nat} (h : a ++ b ++ c = before ++ s :: after) :
    (∃ m, a = before ++ s :: m ∧ after = m ++ b ++ c) ∨
    (∃ m n, b = m ++ s :: n ∧ before = a ++ m ∧ after = n ++ c) ∨
    (∃ m, c = m ++ s :: after ∧ before = a ++ b ++ m) := by
  rw [List.append_assoc] at h
  rcases List.append_eq_append_iff.1 h with ⟨m, rfl, hbc⟩ | ⟨m, rfl, hm⟩
  · rcases List.append_eq_append_iff.1 hbc with ⟨n, rfl, rfl⟩ | ⟨n, rfl, hn⟩
    · exact .inr (.inr ⟨n, rfl, by simp⟩)
    · rcases List.cons_eq_append_iff.1 hn with ⟨rfl, rfl⟩ | ⟨n, rfl, rfl⟩
      · exact .inr (.inr ⟨[], rfl, by simp⟩)
      · exact .inr (.inl ⟨m, n, rfl, rfl, rfl⟩)
  · rcases List.cons_eq_append_iff.1 hm with ⟨rfl, hbc⟩ | ⟨n, rfl, rfl⟩
    · cases b with
      | nil => exact .inr (.inr ⟨[], hbc, by simp⟩)
      | cons t n =>
        simp only [List.cons_append, List.cons.injEq] at hbc
        obtain ⟨rfl, rfl⟩ := hbc
        exact .inr (.inl ⟨[], n, rfl, by simp, rfl⟩)
    · exact .inl ⟨n, rfl, by simp⟩

/-- a symbol is on the way to another: from each form that holds it the way leads on, over one word -/
def Leads (g : Grammar σ) (s : Nat) (back : List Nat) (symbol : Nat) : Prop :=
  ∀ before after front, g.Yields before front → g.Reaches (before ++ s :: after) (front ++ back) symbol

/-- a way that starts in a form which holds a body starts as well in the form before the body came in -/
theorem Leads.fold {s lhs symbol : Nat} {p : Production} {a c before after front back : List Nat}
    (h : g.Leads s back symbol) (mem : p ∈ g.productionsOf lhs) (left : g.Yields before front)
    (hform : a ++ p.rhs ++ c = before ++ s :: after) : g.Reaches (a ++ lhs :: c) (front ++ back) symbol := by
  rcases mem_parts hform with ⟨m, rfl, rfl⟩ | ⟨m, n, hbody, rfl, rfl⟩ | ⟨m, rfl, rfl⟩
  · have := h before (m ++ lhs :: c) front left
    simpa using this
  · obtain ⟨u, v, rfl, ha, hm⟩ := left.split
    have inner : g.Reaches p.rhs (v ++ back) symbol := by
      rw [hbody]
      exact h m n v hm
    rw [List.append_assoc]
    exact .inside ha mem inner
  · have := h (a ++ lhs :: m) after front (left.fold mem)
    simpa using this

theorem Reaches.fold {lhs symbol : Nat} {p : Production} {a c word : List Nat} (mem : p ∈ g.productionsOf lhs)
    (h : g.Reaches (a ++ p.rhs ++ c) word symbol) : g.Reaches (a ++ lhs :: c) word symbol := by
  generalize hform : a ++ p.rhs ++ c = form at h
  cases h with
  | here left =>
    have lead : g.Leads symbol [] symbol := fun before after front left => by
      rw [List.append_nil]
      exact .here left
    simpa using lead.fold mem left hform
  | inside left mem' inner =>
    have lead : g.Leads _ _ symbol := fun before after front left => .inside left mem' inner
    exact lead.fold mem left hform

/-- **Every symbol that a derivation leaves behind a word of terminals is reached over that word.** -/
theorem Derives.reaches {form word rest : List Nat} {symbol : Nat} (h : g.Derives form (word ++ symbol :: rest))
    (hw : ∀ t ∈ word, g.kind t = .terminal) : g.Reaches form word symbol := by
  generalize hlast : word ++ symbol :: rest = last at h
  induction h with
  | refl =>
    subst hlast
    exact .here (yields_self hw)
  | step first _ ih =>
    cases first with
    | replace before after mem => exact (ih hlast).fold mem

end CfgMembership.Grammar
