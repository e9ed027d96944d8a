/-
Recognition decides membership.

`check_exact`: a word with a symbol that is no terminal is malformed at the first such symbol, and any other word is
accepted just when the declarations generate it. That is read off the last column, which holds the item that says that
all is read just when it is valid there.
-/
import CfgMembership.Proofs.Chart.Reading
import CfgMembership.Proofs.Grammar.Declared
import CfgMembership.Recognition

namespace CfgMembership

variable {σ : Type} [BEq σ] [Hashable σ] {g : Grammar σ} {word : List σ}

/-! ## Words of terminals -/

namespace Grammar

theorem kind_of_mem_ids (h : ∀ s ∈ word, g.classify s = .terminal) :
    ∀ t ∈ word.filterMap g.table.id?, g.kind t = .terminal := by
  intro t ht
  obtain ⟨s, hs, hid⟩ := List.mem_filterMap.1 ht
  obtain ⟨id, hid', hkind⟩ := classify_eq_terminal_iff.1 (h s hs)
  obtain rfl : id = t := Option.some.inj (hid'.symm.trans hid)
  exact hkind

theorem length_ids (h : ∀ s ∈ word, g.classify s = .terminal) :
    (word.filterMap g.table.id?).length = word.length := by
  refine List.filterMap_length_eq_length.2 fun s hs => ?_
  obtain ⟨id, hid, -⟩ := classify_eq_terminal_iff.1 (h s hs)
  simp [hid]

theorem foreign?_eq_none_iff : g.foreign? word = none ↔ ∀ s ∈ word, g.classify s = .terminal := by
  simp only [foreign?, List.find?_eq_none, decide_eq_true_eq, not_not]
  constructor
  · intro h s hs
    obtain ⟨i, hi⟩ := List.getElem?_of_mem hs
    exact h (s, i) (List.mem_zipIdx_iff_getElem?.2 hi)
  · intro h x hx
    exact h x.1 (List.mem_of_getElem? (List.mem_zipIdx_iff_getElem?.1 hx))

theorem foreign?_eq_some_iff {s : σ} {p : Nat} :
    g.foreign? word = some (s, p) ↔ word[p]? = some s ∧ g.classify s ≠ .terminal ∧
      ∀ i < p, ∀ s', word[i]? = some s' → g.classify s' = .terminal := by
  simp only [foreign?, List.find?_eq_some_iff_getElem, List.getElem_zipIdx, Nat.zero_add, Prod.mk.injEq,
    decide_eq_true_eq, Bool.not_eq_true', decide_eq_false_iff_not, not_not, List.length_zipIdx]
  constructor
  · rintro ⟨hs, i, hi, ⟨rfl, rfl⟩, hbefore⟩
    refine ⟨List.getElem?_eq_getElem hi, hs, fun j hj s' hs' => ?_⟩
    obtain ⟨_, rfl⟩ := List.getElem?_eq_some_iff.1 hs'
    exact hbefore j hj
  · rintro ⟨hp, hs, hbefore⟩
    obtain ⟨hlt, rfl⟩ := List.getElem?_eq_some_iff.1 hp
    exact ⟨hs, p, hlt, ⟨rfl, rfl⟩, fun j hj => hbefore j hj _ (List.getElem?_eq_getElem _)⟩

end Grammar

/-! ## The verdict -/

/-- the item that says that all is read is valid at the end when the start symbol derives the input -/
theorem Item.valid_accepting_iff (hg : g.Lawful) {input : List Nat} :
    (Item.accepting g).Valid g input input.length ↔ g.Derives [g.start] input := by
  constructor
  · intro h
    simpa [Item.accepting] using h.recognized
  · intro h
    have hseed := Item.Valid.seed hg input
    have hword : g.Derives [g.start] (segment input 0 input.length) := by simpa using h
    exact hseed.over rfl (Nat.zero_le _) (Nat.le_refl _) hword

theorem Chart.accepts_iff (hg : g.Lawful) {input : List Nat} (hw : ∀ t ∈ input, g.kind t = .terminal) :
    (Chart.ofInput g input).accepts g = true ↔ g.Derives [g.start] input := by
  have houtcome := Chart.reading_ofInput hg hw
  have hlast : (Chart.ofInput g input).columns[input.length]? = some (Chart.ofInput g input).last :=
    Chart.getElem?_last houtcome.size
  have hmem : Item.accepting g ∈ (Chart.ofInput g input).last.items ↔
      Item.accepting g ∈ (Chart.ofInput g input).family input.length := by
    rw [Chart.mem_family]
    simp [hlast]
  rw [Chart.accepts, (houtcome.settled _ _ hlast).coherent.seen, hmem, houtcome.family_eq hg hw]
  exact Item.valid_accepting_iff hg

theorem Grammar.check_of_terminals (hg : g.Lawful) (hw : ∀ s ∈ word, g.classify s = .terminal) :
    (g.Derives [g.start] (word.filterMap g.table.id?) ∧ g.check word = .accepted) ∨
    (¬g.Derives [g.start] (word.filterMap g.table.id?) ∧ g.check word = .rejected) := by
  have haccepts := Chart.accepts_iff hg (Grammar.kind_of_mem_ids hw)
  have hcheck : g.check word =
      if (Chart.ofInput g (word.filterMap g.table.id?)).accepts g then .accepted else .rejected := by
    simp [Grammar.check, Grammar.recognize, Grammar.foreign?_eq_none_iff.2 hw, Recognition.verdict]
  by_cases hd : g.Derives [g.start] (word.filterMap g.table.id?)
  · exact .inl ⟨hd, by rw [hcheck, if_pos (haccepts.2 hd)]⟩
  · exact .inr ⟨hd, by rw [hcheck, if_neg (mt haccepts.1 hd)]⟩

theorem Grammar.check_of_foreign {s : σ} {p : Nat} (h : g.foreign? word = some (s, p)) :
    g.check word = .malformed p := by
  simp [Grammar.check, Grammar.recognize, h, Recognition.verdict]

section Declared

variable [Written σ] [EquivBEq σ] [LawfulHashable σ] {ds : List (Declaration σ)}

/-- **Recognition decides membership.** A word is malformed at its first symbol that is no terminal, accepted when it
has none and the declarations generate it, and rejected otherwise. -/
theorem Grammar.check_exact (h : Grammar.ofDeclarations ds = .ok g) (word : List σ) :
    (∀ p, g.check word = .malformed p ↔ (∃ s, word[p]? = some s ∧ g.classify s ≠ .terminal) ∧
      ∀ i < p, ∀ s, word[i]? = some s → g.classify s = .terminal) ∧
    (g.check word = .accepted ↔ (∀ s ∈ word, g.classify s = .terminal) ∧ Declaration.Generates ds word) ∧
    (g.check word = .rejected ↔ (∀ s ∈ word, g.classify s = .terminal) ∧ ¬Declaration.Generates ds word) := by
  have hg := Grammar.lawful_of_ofDeclarations h
  cases hforeign : g.foreign? word with
  | none =>
    have hw := Grammar.foreign?_eq_none_iff.1 hforeign
    have hmalformed (p : Nat) : ¬∃ s, word[p]? = some s ∧ g.classify s ≠ .terminal := by
      rintro ⟨s, hs, hne⟩
      exact hne (hw s (List.mem_of_getElem? hs))
    have hgenerates : g.Derives [g.start] (word.filterMap g.table.id?) ↔ Declaration.Generates ds word := by
      have hboth : g.Generates word ↔ _ := Grammar.generates_iff h
      simpa only [Grammar.Generates, and_iff_right hw] using hboth
    rcases Grammar.check_of_terminals hg hw with ⟨hd, hcheck⟩ | ⟨hd, hcheck⟩
    · rw [hcheck, and_iff_right hw, and_iff_right hw]
      simp [hmalformed, hgenerates.1 hd]
    · rw [hcheck, and_iff_right hw, and_iff_right hw]
      simp [hmalformed, mt hgenerates.2 hd]
  | some found =>
    obtain ⟨s, p⟩ := found
    obtain ⟨hs, hne, hbefore⟩ := Grammar.foreign?_eq_some_iff.1 hforeign
    have hterminals : ¬∀ s ∈ word, g.classify s = .terminal := fun hw => hne (hw s (List.mem_of_getElem? hs))
    rw [Grammar.check_of_foreign hforeign]
    refine ⟨fun q => ?_, by simp [hterminals], by simp [hterminals]⟩
    constructor
    · rintro ⟨⟩
      exact ⟨⟨s, hs, hne⟩, hbefore⟩
    · rintro ⟨⟨s', hs', hne'⟩, hbefore'⟩
      -- both positions are the first
      rcases Nat.lt_trichotomy p q with hlt | rfl | hlt
      · exact absurd (hbefore' p hlt s hs) hne
      · rfl
      · exact absurd (hbefore q hlt s' hs') hne'

end Declared

/-! ## Recognition in the sample -/

theorem Grammar.classify_sample : ∀ s ∈ ['a', 'b'], Grammar.sample.classify s = .terminal := by
  obtain ⟨ha, hb⟩ := Grammar.ids_sample
  simp only [List.forall_mem_cons, List.not_mem_nil, false_imp_iff, implies_true, and_true]
  exact ⟨Grammar.classify_eq_terminal_iff.2 ⟨3, ha, Grammar.kind_sample (by simp)⟩,
    Grammar.classify_eq_terminal_iff.2 ⟨2, hb, Grammar.kind_sample (by simp)⟩⟩

theorem Grammar.filterMap_ids_sample : ['a', 'b'].filterMap Grammar.sample.table.id? = [3, 2] := by
  obtain ⟨ha, hb⟩ := Grammar.ids_sample
  simp [ha, hb]

/-- `ab` is accepted in the sample: `S` gives `A S b`, `A` gives `a`, and the inner `S` the empty word -/
theorem Grammar.check_sample : Grammar.ofDeclarations Grammar.sampleDeclarations = .ok Grammar.sample ∧
    Grammar.sample.check ['a', 'b'] = .accepted := by
  have hS : .production 'S' ['A', 'S', 'b'] ∈ Grammar.sampleDeclarations := by simp [Grammar.sampleDeclarations]
  have hS' : .production 'S' [] ∈ Grammar.sampleDeclarations := by simp [Grammar.sampleDeclarations]
  have hA : .production 'A' ['a'] ∈ Grammar.sampleDeclarations := by simp [Grammar.sampleDeclarations]
  have hgenerates : Declaration.Generates Grammar.sampleDeclarations ['a', 'b'] :=
    ⟨'S', ['a', 'b'], rfl, .head (.replace [] [] hS rfl)
      (.head (.replace [] ['S', 'b'] hA rfl) (.single (.replace ['a'] ['b'] hS' rfl))), rfl⟩
  have hexact := Grammar.check_exact Grammar.ofDeclarations_sample ['a', 'b']
  exact ⟨Grammar.ofDeclarations_sample, hexact.2.1.2 ⟨Grammar.classify_sample, hgenerates⟩⟩

end CfgMembership
