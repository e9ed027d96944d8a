/-
What holds of every grammar made of declarations.

`Lawful` is all that recognition relies on: the productions found for a left side have it, only non-terminals have
productions, the augmented start symbol derives the start symbol in one step and in no other way, and the symbols marked
as nullable are those that derive the empty word. `lawful_of_ofDeclarations` shows it of every grammar that builds.
-/
import Mathlib.Data.List.Permutation
import CfgMembership.Proofs.Grammar.Builder
import CfgMembership.Proofs.Grammar.Nullable
import CfgMembership.Proofs.Grammar.Yield

namespace CfgMembership.Grammar

variable {σ : Type} [BEq σ] [Hashable σ] {g : Grammar σ}

/-! ## Deriving the empty word -/

theorem derives_nil {form : List Nat} (h : ∀ s ∈ form, g.Derives [s] []) : g.Derives form [] := by
  induction form with
  | nil => exact .refl []
  | cons s form ih =>
    exact Derives.append (h s List.mem_cons_self) (ih fun t ht => h t (List.mem_cons_of_mem s ht))

theorem Yields.empties {productions : List Production} {form word : List Nat}
    (hps : ∀ lhs p, p ∈ g.productionsOf lhs → p ∈ productions ∧ p.lhs = lhs) (h : g.Yields form word)
    (hword : word = []) : ∀ s ∈ form, Nullable.Empties productions s := by
  induction h with
  | nil => simp
  | terminal => simp at hword
  | nonTerminal mem _ _ body rest =>
    obtain ⟨hfront, hback⟩ := List.append_eq_nil_iff.1 hword
    intro s hs
    rcases List.mem_cons.1 hs with rfl | hs
    · obtain ⟨hp, rfl⟩ := hps _ _ mem
      exact .intro hp (body hfront)
    · exact rest hback s hs

/-- the symbols whose bodies empty out are those that derive the empty word -/
theorem empties_iff_derives {productions : List Production} {s : Nat}
    (hps : ∀ lhs p, p ∈ g.productionsOf lhs ↔ p ∈ productions ∧ p.lhs = lhs) :
    Nullable.Empties productions s ↔ g.Derives [s] [] := by
  constructor
  · intro h
    induction h with
    | @intro p mem _ ih =>
      have first := Step.replace [] [] ((hps p.lhs p).2 ⟨mem, rfl⟩)
      simp only [List.nil_append, List.append_nil] at first
      exact .step first (derives_nil ih)
  · intro h
    have hyields : g.Yields [s] [] := h.yields (by simp)
    exact hyields.empties (fun lhs p => (hps lhs p).1) rfl s List.mem_cons_self

/-! ## Lawful grammars -/

/-- what recognition relies on -/
structure Lawful (g : Grammar σ) : Prop where
  lhs_eq : ∀ {lhs : Nat} {p : Production}, p ∈ g.productionsOf lhs → p.lhs = lhs
  kind_lhs : ∀ {lhs : Nat} {p : Production}, p ∈ g.productionsOf lhs → g.kind lhs = .nonTerminal
  augmented : g.productionsOf g.augmentedStart = [⟨g.augmentedStart, [g.start]⟩]
  nullable : ∀ {s : Nat}, g.isNullable s = true ↔ g.Derives [s] []

theorem Lawful.mem_productionsOf_lhs (h : g.Lawful) {lhs : Nat} {p : Production} (mem : p ∈ g.productionsOf lhs) :
    p ∈ g.productionsOf p.lhs :=
  (h.lhs_eq mem).symm ▸ mem

theorem Lawful.mem_augmented (h : g.Lawful) :
    (⟨g.augmentedStart, [g.start]⟩ : Production) ∈ g.productionsOf g.augmentedStart := by
  rw [h.augmented]
  exact List.mem_cons_self

theorem Lawful.kind_augmentedStart (h : g.Lawful) : g.kind g.augmentedStart = .nonTerminal :=
  h.kind_lhs h.mem_augmented

/-- what the augmented start symbol derives is itself, or derived from the start symbol -/
theorem Lawful.derives_augmentedStart_iff (h : g.Lawful) {form : List Nat} :
    g.Derives [g.augmentedStart] form ↔ form = [g.augmentedStart] ∨ g.Derives [g.start] form := by
  constructor
  · intro hd
    cases hd with
    | refl => exact .inl rfl
    | step first rest =>
      generalize hform : [g.augmentedStart] = first' at first
      cases first with
      | replace before after mem =>
        rcases List.cons_eq_append_iff.1 hform with ⟨rfl, hcons⟩ | ⟨m, rfl, hnil⟩
        · simp only [List.cons.injEq] at hcons
          obtain ⟨rfl, rfl⟩ := hcons
          rw [h.augmented, List.mem_singleton] at mem
          subst mem
          exact .inr rest
        · simp at hnil
  · rintro (rfl | hd)
    · exact .refl _
    · have first := Step.replace [] [] h.mem_augmented
      exact .step first hd

/-- the builder's invariant and its checks make a lawful grammar -/
theorem Builder.lawful_grammar [Written σ] {b : Builder σ} {start : Nat} (h : b.Bounded)
    (hfault : b.fault? start = none) : (b.grammar start).Lawful where
  lhs_eq mem := ((mem_productionsOf h).1 mem).2
  kind_lhs mem := by
    obtain ⟨hp, rfl⟩ := (mem_productionsOf h).1 mem
    rw [kind_grammar]
    rcases mem_allProductions.1 hp with hp | rfl
    · exact .inr ((fault?_eq_none_iff.1 hfault).2.2 _ hp).1
    · exact .inl rfl
  augmented := productionsOf_augmentedStart h start
  nullable {s} := by
    rw [← empties_iff_derives fun _ _ => mem_productionsOf h, ← Nullable.mem_find_iff]
    simp [isNullable, grammar, allProductions]

/-- **Declarations that build make a lawful grammar.** -/
theorem lawful_of_ofDeclarations [Written σ] [EquivBEq σ] [LawfulHashable σ] {ds : List (Declaration σ)}
    (h : ofDeclarations ds = .ok g) : g.Lawful := by
  obtain ⟨start, _, hfault, rfl⟩ := Builder.build_eq_ok_iff.1 h
  exact Builder.lawful_grammar (Builder.bounded_empty.declareAll ds) hfault

/-- all symbols of a body are declared -/
theorem kind_rhs_of_ofDeclarations [Written σ] [EquivBEq σ] [LawfulHashable σ] {ds : List (Declaration σ)}
    (h : ofDeclarations ds = .ok g) {lhs s : Nat} {p : Production} (hp : p ∈ g.productionsOf lhs) (hs : s ∈ p.rhs) :
    g.kind s = .nonTerminal ∨ g.kind s = .terminal := by
  obtain ⟨start, -, hfault, rfl⟩ := Builder.build_eq_ok_iff.1 h
  obtain ⟨-, hstart, hproductions⟩ := Builder.fault?_eq_none_iff.1 hfault
  have hknown : s ∈ (Builder.empty.declareAll ds).nonTerminals ∨ s ∈ (Builder.empty.declareAll ds).terminals := by
    obtain ⟨hp, -⟩ := (Builder.mem_productionsOf (Builder.bounded_empty.declareAll ds)).1 hp
    rcases Builder.mem_allProductions.1 hp with hp | rfl
    · exact (hproductions p hp).2 s hs
    · exact .inl (List.mem_singleton.1 hs ▸ hstart)
  rw [Builder.kind_grammar, Builder.kind_grammar_eq_terminal_iff]
  tauto

/-! ## A sample -/

/-- `S -> A S b`, `S ->`, `A -> a`, `A -> S`: ambiguous, left recursive through `A`, and both symbols derive the empty
word. All symbols are used before they are declared. -/
def sampleDeclarations : List (Declaration Char) :=
  [.start 'S', .production 'S' ['A', 'S', 'b'], .production 'S' [], .production 'A' ['a'], .production 'A' ['S'],
    .nonTerminal 'S', .nonTerminal 'A', .terminal 'a', .terminal 'b']

def sampleBuilder : Builder Char := Builder.empty.declareAll sampleDeclarations

/-- the sample: `S` has number 0, `A` 1, `b` 2 and `a` 3 -/
def sample : Grammar Char := sampleBuilder.grammar 0

theorem ofDeclarations_sample : ofDeclarations sampleDeclarations = .ok sample :=
  Builder.build_eq_ok_iff.2 ⟨0, by cbv, by cbv, rfl⟩

theorem ids_sample : sample.table.id? 'a' = some 3 ∧ sample.table.id? 'b' = some 2 := by
  show sampleBuilder.table.id? 'a' = some 3 ∧ sampleBuilder.table.id? 'b' = some 2
  exact ⟨by cbv, by cbv⟩

/-- a number among the terminals of a builder, and not among its non-terminals, is that of a terminal -/
theorem kind_of_contains {b : Builder Char} {id : Nat} (start : Nat) (hsize : id ≠ b.table.size)
    (hnon : b.nonTerminals.contains id = false) (hterm : b.terminals.contains id = true) :
    (b.grammar start).kind id = .terminal := by
  refine (Builder.kind_grammar_eq_terminal_iff b start id).2 ⟨hsize, ?_, Std.HashSet.contains_iff_mem.1 hterm⟩
  rw [← Std.HashSet.contains_iff_mem, hnon]
  exact Bool.false_ne_true

theorem kind_sample {id : Nat} (h : id ∈ [2, 3]) : sample.kind id = .terminal := by
  have hsets : ∀ id ∈ [2, 3], id ≠ sampleBuilder.table.size ∧ sampleBuilder.nonTerminals.contains id = false ∧
      sampleBuilder.terminals.contains id = true := by
    simp only [List.forall_mem_cons]
    exact ⟨⟨by cbv, by cbv, by cbv⟩, ⟨by cbv, by cbv, by cbv⟩, by simp⟩
  obtain ⟨hsize, hnon, hterm⟩ := hsets id h
  exact kind_of_contains 0 hsize hnon hterm

theorem mem_productionsOf_sample {p : Production} (h : p ∈ [⟨0, [1, 0, 2]⟩, ⟨0, []⟩, ⟨1, [3]⟩, ⟨1, [0]⟩]) :
    p ∈ sample.productionsOf p.lhs := by
  have hall : sampleBuilder.productions = #[⟨0, [1, 0, 2]⟩, ⟨0, []⟩, ⟨1, [3]⟩, ⟨1, [0]⟩] := by cbv
  refine (Builder.mem_productionsOf (Builder.bounded_empty.declareAll sampleDeclarations)).2 ⟨?_, rfl⟩
  refine Builder.mem_allProductions.2 (.inl ?_)
  rw [show Builder.empty.declareAll sampleDeclarations = sampleBuilder from rfl, hall]
  simpa using h

/-- `S` gives `A S b`, and `A` gives `a` -/
theorem derives_sample : sample.Derives [0] [3, 0, 2] :=
  .step (.replace [] [] (mem_productionsOf_sample (p := ⟨0, [1, 0, 2]⟩) (by simp)))
    (.step (.replace [] [0, 2] (mem_productionsOf_sample (p := ⟨1, [3]⟩) (by simp))) (.refl _))

/-- the inner `S` gives the empty word -/
theorem derives_sample_ab : sample.Derives [0] [3, 2] :=
  derives_sample.trans (.step (.replace [3] [2] (mem_productionsOf_sample (p := ⟨0, []⟩) (by simp))) (.refl _))

end CfgMembership.Grammar
