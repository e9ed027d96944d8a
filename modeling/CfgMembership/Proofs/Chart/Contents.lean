/-
What the chart of an input holds.

`mem_column_iff` characterises the items of every column: an item stands in column `i` just when its production was
reached at its origin and its body up to the dot derives the input from there to `i`. `family_isLeast` says the same
by rules. The columns are the least family closed under seed, scan, predict and complete, although each item is worked
off once, items pass nullable symbols by a shortcut and reading stops at the first symbol that no item waits for.
-/
import Mathlib.Order.Bounds.Basic
import CfgMembership.Proofs.Chart.Reading

namespace CfgMembership.Chart

variable {σ : Type} [BEq σ] [Hashable σ] [Written σ] [EquivBEq σ] [LawfulHashable σ] {g : Grammar σ}
  {ds : List (Declaration σ)} {input : List Nat}

/-- **Which items a column holds.** The chart has a column for each position of the input. Column `i` holds the item
of head `A` and origin `j` with the dot between `α` and `β` just when `j ≤ i`, `A -> α β` is a production, the
augmented start symbol derives the input up to `j` followed by `A`, and `α` derives the input from `j` to `i`. No dot
is past the end of its body. -/
theorem mem_column_iff (h : Grammar.ofDeclarations ds = .ok g) (hw : ∀ t ∈ input, g.kind t = .terminal) :
    (ofInput g input).columns.size = input.length + 1 ∧
    ∀ (i : Nat) (c : Column), (ofInput g input).columns[i]? = some c →
      (∀ it ∈ c.items, it.dot ≤ it.body.length) ∧
      ∀ (A j : Nat) (α β : List Nat), (⟨A, j, α.length, α ++ β⟩ : Item) ∈ c.items ↔
        j ≤ i ∧ ⟨A, α ++ β⟩ ∈ g.productionsOf A ∧
        (∃ γ, g.Derives [g.augmentedStart] (input.take j ++ A :: γ)) ∧ g.Derives α ((input.take i).drop j) := by
  have hg := Grammar.lawful_of_ofDeclarations h
  have houtcome := reading_ofInput hg hw
  have hsize := houtcome.size
  refine ⟨hsize, fun i c hc => ?_⟩
  have hmem (it : Item) : it ∈ c.items ↔ it.Valid g input i := by
    have hfamily : it ∈ (ofInput g input).family i ↔ it.Valid g input i := by
      rw [houtcome.family_eq hg hw]
      exact Iff.rfl
    rw [← hfamily, mem_family]
    simp [hc]
  refine ⟨fun it hit => ((hmem it).1 hit).dot_le, fun A j α β => ?_⟩
  rw [hmem]
  constructor
  · intro hv
    refine ⟨hv.origin_le, hv.production, hv.reached, ?_⟩
    simpa [segment] using hv.recognized
  · rintro ⟨horigin, hproduction, hreached, hderives⟩
    have hi : i < input.length + 1 := hsize ▸ (Array.getElem?_eq_some_iff.1 hc).1
    exact {
      production := hproduction
      dot_le := by simp
      origin_le := horigin
      inside := Nat.le_of_lt_succ hi
      reached := hreached
      recognized := by simpa [segment] using hderives }

/-- in the chart of `ab`, column 1 holds `S -> A S . b` of origin 0, though nothing was read for its `S` -/
theorem mem_column_sample : ∃ c, (ofInput Grammar.sample [3, 2]).columns[1]? = some c ∧
    (⟨0, 0, 2, [1, 0, 2]⟩ : Item) ∈ c.items := by
  have hw : ∀ t ∈ [3, 2], Grammar.sample.kind t = .terminal := fun t ht =>
    Grammar.kind_sample (by simpa [or_comm] using ht)
  obtain ⟨hsize, hcolumns⟩ := mem_column_iff Grammar.ofDeclarations_sample hw
  obtain ⟨c, hc⟩ : ∃ c, (ofInput Grammar.sample [3, 2]).columns[1]? = some c :=
    ⟨_, Array.getElem?_eq_getElem (by rw [hsize]; decide)⟩
  have hstart : Grammar.sample.Derives [Grammar.sample.augmentedStart] [0] :=
    (Grammar.lawful_of_ofDeclarations Grammar.ofDeclarations_sample).derives_augmentedStart_iff.2 (.inr (.refl _))
  refine ⟨c, hc, ((hcolumns 1 c hc).2 0 0 [1, 0] [2]).2 ⟨by decide, ?_, ⟨[], hstart⟩, ?_⟩⟩
  · exact Grammar.mem_productionsOf_sample (p := ⟨0, [1, 0, 2]⟩) (by simp)
  · exact .step (.replace [] [0] (Grammar.mem_productionsOf_sample (p := ⟨1, [3]⟩) (by simp)))
      (.step (.replace [3] [] (Grammar.mem_productionsOf_sample (p := ⟨0, []⟩) (by simp))) (.refl _))

/-- **The columns are the least family closed under the plain rules.** -/
theorem family_isLeast (h : Grammar.ofDeclarations ds = .ok g) (hw : ∀ t ∈ input, g.kind t = .terminal) :
    IsLeast {F : ItemFamily | RuleClosed g input F} (ofInput g input).family := by
  have hg := Grammar.lawful_of_ofDeclarations h
  rw [(reading_ofInput hg hw).family_eq hg hw]
  refine ⟨ruleClosed_validItems hg input, fun F hF i it hit => ?_⟩
  exact (hF.saturated hg).mem_of_valid hg hw hit

/-- the chart of `ab` -/
theorem family_isLeast_sample : Grammar.ofDeclarations Grammar.sampleDeclarations = .ok Grammar.sample ∧
    (∀ t ∈ [3, 2], Grammar.sample.kind t = .terminal) ∧
    IsLeast {F : ItemFamily | RuleClosed Grammar.sample [3, 2] F} (ofInput Grammar.sample [3, 2]).family := by
  have hw : ∀ t ∈ [3, 2], Grammar.sample.kind t = .terminal := fun t ht =>
    Grammar.kind_sample (by simpa [or_comm] using ht)
  exact ⟨Grammar.ofDeclarations_sample, hw, family_isLeast Grammar.ofDeclarations_sample hw⟩

end CfgMembership.Chart
