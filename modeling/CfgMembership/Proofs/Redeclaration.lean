/-
Recognition does not hang on how a grammar was declared.

Two sequences of calls on a builder may declare the same in another order, in another interleaving and more or less often.
The symbols then have other numbers, the productions of a left side another order, and the items enter the columns of a
chart in another order. `recognize_of_alike`: nothing of that can be seen from outside. Both make a grammar or neither
does, every word has the same verdict, reading fails at the same symbol if at all, and each column holds the same items
once numbers are read as symbols.

The chart holds the valid items whatever the order in which they were found, so that it is enough to carry valid items from
one grammar to the other (`Item.Valid.renumber`).
-/
import Mathlib.Data.List.Nodup
import Mathlib.Data.List.Perm.Subperm
import CfgMembership.Proofs.Grammar.Redeclared
import CfgMembership.Proofs.RecognitionLog

namespace CfgMembership

variable {σ : Type} [BEq σ] [Hashable σ] {g g' : Grammar σ}

/-! ## Items under other numbers -/

/-- an item in symbols; the augmented start symbol has none -/
structure SymbolItem (σ : Type) where
  head : Option σ
  origin : Nat
  dot : Nat
  body : List (Option σ)
  deriving BEq, Repr

namespace Item

variable {input : List Nat} {i : Nat} {it : Item}

def inSymbols (t : SymbolTable σ) (it : Item) : SymbolItem σ :=
  ⟨t.symbol? it.head, it.origin, it.dot, it.body.map t.symbol?⟩

/-- the item under other numbers -/
def renumber (f : Nat → Nat) (it : Item) : Item := { it with head := f it.head, body := it.body.map f }

theorem Valid.renumber (h : it.Valid g input i) (hg : g.Mirrors g') :
    (it.renumber (g.renumber g')).Valid g' (input.map (g.renumber g')) i where
  production := hg.production h.production
  dot_le := by
    have := h.dot_le
    simpa [Item.renumber] using this
  origin_le := h.origin_le
  inside := by
    have := h.inside
    simpa using this
  reached := by
    obtain ⟨after, hafter⟩ := h.reached
    have := hg.derives hafter
    exact ⟨after.map (g.renumber g'), by simpa [Item.renumber, List.map_take] using this⟩
  recognized := by
    have := hg.derives h.recognized
    simpa [Item.renumber, segment, List.map_take, List.map_drop] using this

variable [EquivBEq σ] [LawfulHashable σ]

/-- an item comes back -/
theorem Within.renumber_renumber (h : it.Within g i) (hg : g.Mirrors g') (hg' : g'.Mirrors g) :
    (it.renumber (g.renumber g')).renumber (g'.renumber g) = it := by
  have hshared := hg.shared h.production
  have hhead := (hshared it.head List.mem_cons_self).renumber_renumber hg.indexed hg'.indexed
  have hbody := SymbolTable.map_renumber_renumber (fun id hid => hshared id (List.mem_cons_of_mem _ hid)) hg.indexed
    hg'.indexed
  cases it
  simp only [Item.renumber, Item.mk.injEq, true_and]
  exact ⟨hhead, hbody⟩

theorem Within.inSymbols_beq (h : it.Within g i) (hg : g.Mirrors g') (hg' : g'.Mirrors g) :
    it.inSymbols g.table == (it.renumber (g.renumber g')).inSymbols g'.table := by
  have hshared := hg.shared h.production
  have hhead := (hshared it.head List.mem_cons_self).symbol?_beq hg.indexed hg'.indexed
  have hbody := SymbolTable.map_symbol?_beq (fun id hid => hshared id (List.mem_cons_of_mem _ hid)) hg.indexed
    hg'.indexed
  show (_ && ((it.origin == it.origin) && ((it.dot == it.dot) && _))) = true
  simp only [BEq.rfl, Bool.true_and, Bool.and_eq_true]
  exact ⟨hhead, hbody⟩

end Item

/-! ## Charts -/

namespace Chart

/-- two charts that fail at the same symbol, if at all, and hold the same items once numbers are read as symbols -/
structure Alike (g g' : Grammar σ) (chart chart' : Chart) : Prop where
  failedAt : chart.failedAt = chart'.failedAt
  size : chart.columns.size = chart'.columns.size
  items : ∀ i, ∀ it ∈ chart.itemsAt i, ∃ it' ∈ chart'.itemsAt i, it.inSymbols g.table == it'.inSymbols g'.table
  items_back : ∀ i, ∀ it' ∈ chart'.itemsAt i, ∃ it ∈ chart.itemsAt i, it.inSymbols g.table == it'.inSymbols g'.table
  counts : chart.closedColumns.map (·.items.size) = chart'.closedColumns.map (·.items.size)

variable {input : List Nat} {i : Nat}

theorem mem_itemsAt_iff_family {chart : Chart} {it : Item} : it ∈ chart.itemsAt i ↔ it ∈ chart.family i := by
  unfold itemsAt
  rw [mem_family]
  cases chart.columns[i]? with
  | none => simp [Column.empty]
  | some c => simp

theorem mem_itemsAt_iff (hg : g.Lawful) (hw : ∀ t ∈ input, g.kind t = .terminal) {it : Item} :
    it ∈ (ofInput g input).itemsAt i ↔ it.Valid g input i := by
  rw [mem_itemsAt_iff_family, (reading_ofInput hg hw).family_eq hg hw]
  exact Iff.rfl

/-- charts whose columns have as many items each show the same numbers -/
theorem counts_eq {chart chart' : Chart} (hfailed : chart.failedAt = chart'.failedAt)
    (hsize : chart.columns.size = chart'.columns.size)
    (hlength : ∀ i, (chart.itemsAt i).length = (chart'.itemsAt i).length) :
    chart.closedColumns.map (·.items.size) = chart'.closedColumns.map (·.items.size) := by
  have hcolumns : chart.columns.toList.map (·.items.size) = chart'.columns.toList.map (·.items.size) := by
    refine List.ext_getElem (by simpa using hsize) fun i hi hi' => ?_
    have := hlength i
    simp at hi hi'
    simpa [itemsAt, hi, hi'] using this
  rw [closedColumns_eq_take, closedColumns_eq_take, List.map_take, List.map_take, hcolumns, hfailed, hsize]

variable {input' : List Nat}

theorem viable_take (hg : g.Mirrors g') (hinput : input.map (g.renumber g') = input') {k : Nat}
    (h : g.Viable (input.take k)) : g'.Viable (input'.take k) := by
  have := hg.viable h
  rwa [List.map_take, hinput] at this

section Mirrored

variable [EquivBEq σ] [LawfulHashable σ]

/-- the items of one chart are no more than those of the other -/
theorem length_itemsAt_le (hg : g.Mirrors g') (hg' : g'.Mirrors g) (hw : ∀ t ∈ input, g.kind t = .terminal)
    (hw' : ∀ t ∈ input', g'.kind t = .terminal) (hinput : input.map (g.renumber g') = input') :
    ((ofInput g input).itemsAt i).length ≤ ((ofInput g' input').itemsAt i).length := by
  have hvalid : ∀ it ∈ (ofInput g input).itemsAt i, it.Valid g input i := fun it => (mem_itemsAt_iff hg.lawful hw).1
  have hnodup : (((ofInput g input).itemsAt i).map (Item.renumber (g.renumber g'))).Nodup := by
    -- items come back, so that different items stay different under the other numbers
    refine List.Nodup.map_on (fun it hit it' hit' hsame => ?_) (nodup_itemsAt (reading_ofInput hg.lawful hw).settled i)
    rw [← (hvalid it hit).renumber_renumber hg hg', hsame, (hvalid it' hit').renumber_renumber hg hg']
  have hsubset : ((ofInput g input).itemsAt i).map (Item.renumber (g.renumber g')) ⊆ (ofInput g' input').itemsAt i := by
    intro it' hit'
    obtain ⟨it, hit, rfl⟩ := List.mem_map.1 hit'
    rw [mem_itemsAt_iff hg'.lawful hw', ← hinput]
    exact (hvalid it hit).renumber hg
  calc ((ofInput g input).itemsAt i).length
      = (((ofInput g input).itemsAt i).map (Item.renumber (g.renumber g'))).length := (List.length_map _).symm
    _ ≤ ((ofInput g' input').itemsAt i).length := (hnodup.subperm hsubset).length_le

theorem alike_ofInput (hg : g.Mirrors g') (hg' : g'.Mirrors g) (hw : ∀ t ∈ input, g.kind t = .terminal)
    (hw' : ∀ t ∈ input', g'.kind t = .terminal) (hinput : input.map (g.renumber g') = input')
    (hinput' : input'.map (g'.renumber g) = input) : Alike g g' (ofInput g input) (ofInput g' input') := by
  have houtcome := reading_ofInput hg.lawful hw
  have houtcome' := reading_ofInput hg'.lawful hw'
  have hlength : input.length = input'.length := by rw [← hinput, List.length_map]
  have hviable (k : Nat) : g.Viable (input.take k) ↔ g'.Viable (input'.take k) :=
    ⟨viable_take hg hinput, viable_take hg' hinput'⟩
  have hfailed : (ofInput g input).failedAt = (ofInput g' input').failedAt := by
    ext k
    rw [houtcome.failedAt_eq_some_iff hg.lawful hw, houtcome'.failedAt_eq_some_iff hg'.lawful hw', hlength]
    simp only [hviable]
  have hsize : (ofInput g input).columns.size = (ofInput g' input').columns.size := by
    rw [houtcome.size, houtcome'.size, hlength]
  exact {
    failedAt := hfailed
    size := hsize
    items := by
      intro i it hit
      have hvalid := (mem_itemsAt_iff hg.lawful hw).1 hit
      refine ⟨it.renumber (g.renumber g'), ?_, hvalid.inSymbols_beq hg hg'⟩
      rw [mem_itemsAt_iff hg'.lawful hw', ← hinput]
      exact hvalid.renumber hg
    items_back := by
      intro i it' hit'
      have hvalid' := (mem_itemsAt_iff hg'.lawful hw').1 hit'
      have hvalid := hvalid'.renumber hg'
      rw [hinput'] at hvalid
      -- the item that is looked for is the one carried back, which leads to this one again
      refine ⟨it'.renumber (g'.renumber g), (mem_itemsAt_iff hg.lawful hw).2 hvalid, ?_⟩
      have hsame := hvalid.inSymbols_beq hg hg'
      rwa [hvalid'.renumber_renumber hg' hg] at hsame
    counts := by
      refine counts_eq hfailed hsize fun i => ?_
      exact Nat.le_antisymm (length_itemsAt_le hg hg' hw hw' hinput) (length_itemsAt_le hg' hg hw' hw hinput') }

end Mirrored

end Chart

/-! ## Recognition -/

/-- a word is examined in the same way: it is malformed at the same symbol, or the charts hold the same -/
inductive Recognition.Alike (g g' : Grammar σ) : Recognition σ → Recognition σ → Prop where
  | malformed (s : σ) (position : Nat) : Alike g g' (.malformed s position) (.malformed s position)
  | charted {chart chart' : Chart} (charts : Chart.Alike g g' chart chart') : Alike g g' (.charted chart) (.charted chart')

namespace Grammar

theorem Mirrors.foreign?_eq (h : g.Mirrors g') (word : List σ) : g.foreign? word = g'.foreign? word := by
  have hclassify : g.classify = g'.classify := funext h.classify_eq
  rw [foreign?, foreign?, hclassify]

variable [EquivBEq σ] [LawfulHashable σ]

theorem Mirrors.recognize (h : g.Mirrors g') (h' : g'.Mirrors g) (word : List σ) :
    (g.recognize word).Alike g g' (g'.recognize word) := by
  unfold Grammar.recognize
  rw [← h.foreign?_eq word]
  cases hforeign : g.foreign? word with
  | some found => exact .malformed found.1 found.2
  | none =>
    have hw := foreign?_eq_none_iff.1 hforeign
    have hw' := h.terminals hw
    exact .charted (Chart.alike_ofInput h h' (kind_of_mem_ids hw) (kind_of_mem_ids hw') (h.map_word hw)
      (h'.map_word hw'))

theorem Mirrors.derives_word (h : g.Mirrors g') {word : List σ} (hw : ∀ s ∈ word, g.classify s = .terminal)
    (hd : g.Derives [g.start] (word.filterMap g.table.id?)) :
    g'.Derives [g'.start] (word.filterMap g'.table.id?) := by
  rw [← h.map_word hw]
  exact h.derives_start hd

theorem Mirrors.check_eq (h : g.Mirrors g') (h' : g'.Mirrors g) (word : List σ) : g.check word = g'.check word := by
  cases hforeign : g.foreign? word with
  | some found => rw [check_of_foreign hforeign, check_of_foreign ((h.foreign?_eq word).symm.trans hforeign)]
  | none =>
    have hw := foreign?_eq_none_iff.1 hforeign
    have hw' := h.terminals hw
    rcases check_of_terminals h.lawful hw with ⟨hd, hcheck⟩ | ⟨hd, hcheck⟩ <;>
      rcases check_of_terminals h'.lawful hw' with ⟨hd', hcheck'⟩ | ⟨hd', hcheck'⟩
    · rw [hcheck, hcheck']
    · exact absurd (h.derives_word hw hd) hd'
    · exact absurd (h'.derives_word hw' hd') hd
    · rw [hcheck, hcheck']

/-- **Recognition does not hang on how a grammar was declared.** Of calls that declare the same terminals, non-terminals
and productions and the same start symbol in the end, both make a grammar or neither does. The two grammars have the same
verdict on every word, and examine it in the same way: it is malformed at the same symbol, or reading fails at the same
position, if at all, and each column holds the same items once numbers are read as symbols, and as many. -/
theorem recognize_of_alike [Written σ] {calls calls' : List (Call σ)}
    (h : Declaration.Alike (Call.allDeclarations calls) (Call.allDeclarations calls')) :
    ((∃ g, ofCalls calls = .ok g) ↔ ∃ g', ofCalls calls' = .ok g') ∧
    ∀ g g', ofCalls calls = .ok g → ofCalls calls' = .ok g' → ∀ word,
      g.check word = g'.check word ∧ (g.recognize word).Alike g g' (g'.recognize word) := by
  simp only [ofCalls_eq]
  refine ⟨⟨h.exists_ofDeclarations, h.symm.exists_ofDeclarations⟩, fun g g' hg hg' word => ?_⟩
  have hmirrors := mirrors_of_alike hg hg' h
  have hmirrors' := mirrors_of_alike hg' hg h.symm
  exact ⟨hmirrors.check_eq hmirrors' word, hmirrors.recognize hmirrors' word⟩

/-- the calls of the sample in another order, some of them twice, with another start symbol marked at first -/
def shuffledCalls : List (Call Char) :=
  [.declaration (.terminal 'b'), .declaration (.start 'A'), .productions 'A' [['S'], ['a'], ['S']],
    .declaration (.terminal 'a'), .declaration (.nonTerminal 'A'), .declaration (.production 'S' []),
    .declaration (.start 'S'), .declaration (.nonTerminal 'S'), .declaration (.terminal 'b'),
    .declaration (.production 'S' ['A', 'S', 'b'])]

theorem alike_shuffledCalls :
    Declaration.Alike (Call.allDeclarations sampleCalls) (Call.allDeclarations shuffledCalls) where
  terminal s := by
    simp [Declaration.declares_terminal_iff, Call.allDeclarations, Call.declarations, sampleCalls, shuffledCalls]
    tauto
  nonTerminal s := by
    simp [Declaration.declares_nonTerminal_iff, Call.allDeclarations, Call.declarations, sampleCalls, shuffledCalls]
    tauto
  production lhs rhs := by
    simp [Declaration.declares_production_iff, Call.allDeclarations, Call.declarations, sampleCalls, shuffledCalls,
      Declaration.productions, Declaration.production?]
    tauto
  start := rfl

/-- the shuffled calls make a grammar too, which accepts `ab` as the sample does and charts it in the same way -/
theorem recognize_of_alike_sample : ∃ g', ofCalls shuffledCalls = .ok g' ∧ g'.check ['a', 'b'] = .accepted ∧
    (sample.recognize ['a', 'b']).Alike sample g' (g'.recognize ['a', 'b']) := by
  obtain ⟨hbuilds, hsame⟩ := recognize_of_alike alike_shuffledCalls
  obtain ⟨g', hg'⟩ := hbuilds.1 ⟨sample, ofCalls_sampleCalls⟩
  obtain ⟨hcheck, halike⟩ := hsame sample g' ofCalls_sampleCalls hg' ['a', 'b']
  have haccepted : sample.check ['a', 'b'] = .accepted := by
    have hlawful := lawful_of_ofDeclarations ofDeclarations_sample
    rcases check_of_terminals hlawful classify_sample with ⟨-, hcheck⟩ | ⟨hnot, -⟩
    · exact hcheck
    · rw [filterMap_ids_sample] at hnot
      exact absurd derives_sample_ab hnot
  exact ⟨g', hg', hcheck.symm.trans haccepted, halike⟩

end Grammar

end CfgMembership
