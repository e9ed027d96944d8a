/-
The trace log of recognition says how far the input can be continued.

`log_trace`: the log shows the columns up to the first position such that no form derived from the start symbol begins
with the input up to there, and then names that position as the one where recognition failed. Where there is no such
position, it shows all columns and no failure.
-/
import CfgMembership.Proofs.Recognition

namespace CfgMembership

variable {σ : Type} [BEq σ] [Hashable σ] {g : Grammar σ} {word : List σ}

/-! ## The columns shown -/

namespace Chart

/-- the items of one column in the order they were added -/
def itemsAt (chart : Chart) (position : Nat) : List Item :=
  (chart.columns[position]?.getD .empty).items.toList

theorem nodup_itemsAt {chart : Chart} (h : Column.AllSettled g chart.columns) (position : Nat) :
    (chart.itemsAt position).Nodup := by
  unfold itemsAt
  cases hc : chart.columns[position]? with
  | none => exact List.nodup_nil
  | some c => exact (h position c hc).coherent.nodup

/-- the first entries of a list with their positions, read by position -/
theorem flatMap_zipIdx_take {α β : Type} (f : α → Nat → List β) (default : α) (l : List α) {n : Nat}
    (hn : n ≤ l.length) :
    ((l.take n).zipIdx.flatMap fun (a, i) => f a i) = (List.range n).flatMap fun i => f (l[i]?.getD default) i := by
  rw [List.flatMap_def, List.flatMap_def]
  refine congrArg List.flatten (List.ext_getElem (by simp [hn]) fun i hi hi' => ?_)
  have hlt : i < n := by simpa using hi'
  simp [Nat.lt_of_lt_of_le hlt hn]

/-- the columns that were closed are the first ones, up to where reading failed -/
theorem closedColumns_eq_take (chart : Chart) :
    chart.closedColumns = chart.columns.toList.take (chart.failedAt.getD chart.columns.size) := by
  unfold closedColumns
  cases chart.failedAt with
  | none => exact (List.take_of_length_le (Nat.le_refl _)).symm
  | some position => simp

end Chart

/-! ## A grammar without words -/

namespace Grammar

/-- a symbol that no production brings in does not come about -/
theorem Derives.not_mem {id : Nat} {a b : List Nat} (hrhs : ∀ lhs, ∀ p ∈ g.productionsOf lhs, id ∉ p.rhs)
    (h : g.Derives a b) (ha : id ∉ a) : id ∉ b := by
  induction h with
  | refl => exact ha
  | step hstep _ ih =>
    refine ih ?_
    cases hstep with
    | replace before after mem =>
      have hbody := hrhs _ _ mem
      simp_all

/-- `S -> a S`: no derivation ends, and no form has a `b` in it -/
def endlessDeclarations : List (Declaration Char) :=
  [.start 'S', .production 'S' ['a', 'S'], .nonTerminal 'S', .terminal 'a', .terminal 'b']

def endlessBuilder : Builder Char := Builder.empty.declareAll endlessDeclarations

/-- `S` has number 0, `a` 1 and `b` 2 -/
def endless : Grammar Char := endlessBuilder.grammar 0

theorem ofDeclarations_endless : ofDeclarations endlessDeclarations = .ok endless :=
  Builder.build_eq_ok_iff.2 ⟨0, by cbv, by cbv, rfl⟩

theorem ids_endless : endless.table.id? 'a' = some 1 ∧ endless.table.id? 'b' = some 2 := by
  show endlessBuilder.table.id? 'a' = some 1 ∧ endlessBuilder.table.id? 'b' = some 2
  exact ⟨by cbv, by cbv⟩

theorem classify_endless : ∀ s ∈ ['a', 'b'], endless.classify s = .terminal := by
  obtain ⟨ha, hb⟩ := ids_endless
  have hsize : endlessBuilder.table.size = 3 := by cbv
  simp only [List.forall_mem_cons, List.not_mem_nil, false_imp_iff, implies_true, and_true]
  exact ⟨classify_eq_terminal_iff.2 ⟨1, ha, kind_of_contains 0 (by rw [hsize]; decide) (by cbv) (by cbv)⟩,
    classify_eq_terminal_iff.2 ⟨2, hb, kind_of_contains 0 (by rw [hsize]; decide) (by cbv) (by cbv)⟩⟩

theorem mem_productionsOf_endless {lhs : Nat} {p : Production} :
    p ∈ endless.productionsOf lhs ↔ (p = ⟨0, [1, 0]⟩ ∨ p = ⟨3, [0]⟩) ∧ p.lhs = lhs := by
  have hb : endlessBuilder.Bounded := Builder.bounded_empty.declareAll endlessDeclarations
  have hsize : endlessBuilder.table.size = 3 := by cbv
  have hproductions : endlessBuilder.productions = #[⟨0, [1, 0]⟩] := by cbv
  rw [endless, Builder.mem_productionsOf hb, Builder.mem_allProductions, hproductions, hsize]
  simp

/-- each word of `a` begins a derivation, and `ab` does not -/
theorem viable_endless : endless.Viable [1] ∧ ¬endless.Viable [1, 2] := by
  refine ⟨⟨[0], .step (.replace [] [] (mem_productionsOf_endless.2 ⟨.inl rfl, rfl⟩)) (.refl _)⟩, ?_⟩
  rintro ⟨after, h⟩
  refine absurd (h.not_mem (fun lhs p hp => ?_) ?_) (by simp : ¬2 ∉ [1, 2] ++ after)
  · rcases (mem_productionsOf_endless.1 hp).1 with rfl | rfl <;> decide
  · show 2 ∉ [0]
    decide

end Grammar

/-! ## The log -/

namespace Recognition

variable [Written σ]

/-- what the log shows of one column: the number of its items, and a line for each -/
def block (g : Grammar σ) (chart : Chart) (position : Nat) : List Log.Entry :=
  ⟨.trace, s!"SET {position}: {(chart.itemsAt position).length} items"⟩ ::
    (chart.itemsAt position).map fun it => ⟨.trace, "    " ++ it.text g⟩

/-- the blocks of the first columns, in order -/
def blocks (g : Grammar σ) (chart : Chart) (n : Nat) : List Log.Entry :=
  (List.range n).flatMap (block g chart)

/-- the entry on where recognition failed -/
def failure (position : Nat) : Log.Entry := ⟨.debug, s!"Recognition failed at token {position}"⟩

theorem map_chartLines (g : Grammar σ) {chart : Chart} {n : Nat} (hn : chart.failedAt.getD chart.columns.size = n)
    (hle : n ≤ chart.columns.size) :
    (chartLines g chart).map (Log.Entry.mk .trace) = blocks g chart n := by
  unfold chartLines
  rw [chart.closedColumns_eq_take, hn,
    Chart.flatMap_zipIdx_take (fun c position => columnLines g position c) .empty _ hle, List.map_flatMap]
  refine congrArg (List.range n).flatMap (funext fun position => ?_)
  simp [columnLines, block, Chart.itemsAt]

theorem log_charted_of_none (g : Grammar σ) {chart : Chart} (h : chart.failedAt = none) :
    (charted chart : Recognition σ).log g (some .trace) = blocks g chart chart.columns.size := by
  rw [← map_chartLines g (by rw [h]; rfl) (Nat.le_refl _)]
  simp [log, h, Log.entriesAt, Log.Threshold.keeps, Log.Level.detail]

theorem log_charted_of_some (g : Grammar σ) {chart : Chart} {k : Nat} (h : chart.failedAt = some k)
    (hle : k ≤ chart.columns.size) :
    (charted chart : Recognition σ).log g (some .trace) = blocks g chart k ++ [failure k] := by
  rw [← map_chartLines g (by rw [h]; rfl) hle]
  simp [log, h, Log.entriesAt, Log.Threshold.keeps, Log.Level.detail, failure]

/-- **What the trace log shows.** It has a block for each column up to the first position `k` such that no form
derived from the start symbol begins with the word up to `k`, then the failure at `k`, and the word is rejected; with
no such position it has a block for each column and no failure. The items of a block are distinct. -/
theorem log_trace [EquivBEq σ] [LawfulHashable σ] {ds : List (Declaration σ)} (h : Grammar.ofDeclarations ds = .ok g)
    (hw : ∀ s ∈ word, g.classify s = .terminal) :
    let input := word.filterMap g.table.id?
    let chart := Chart.ofInput g input
    let stuck := {k | 1 ≤ k ∧ k ≤ word.length ∧ ¬g.Viable (input.take k)}
    (∀ position, (chart.itemsAt position).Nodup) ∧
    (∀ k, IsLeast stuck k →
      (g.recognize word).log g (some .trace) = blocks g chart k ++ [failure k] ∧ g.check word = .rejected) ∧
    (stuck = ∅ → (g.recognize word).log g (some .trace) = blocks g chart (word.length + 1)) := by
  intro input chart stuck
  have hg := Grammar.lawful_of_ofDeclarations h
  have hterminals : ∀ t ∈ input, g.kind t = .terminal := Grammar.kind_of_mem_ids hw
  have hlength : input.length = word.length := Grammar.length_ids hw
  have houtcome : Chart.Outcome g input chart := Chart.reading_ofInput hg hterminals
  have hrecognize : g.recognize word = .charted chart := by
    simp [Grammar.recognize, Grammar.foreign?_eq_none_iff.2 hw, chart, input]
  have hfailed {k : Nat} : chart.failedAt = some k ↔ IsLeast stuck k := by
    rw [houtcome.failedAt_eq_some_iff hg hterminals, hlength]
  have hsize : chart.columns.size = word.length + 1 := by rw [houtcome.size, hlength]
  refine ⟨Chart.nodup_itemsAt houtcome.settled, fun k hk => ⟨?_, ?_⟩, fun hnone => ?_⟩
  · rw [hrecognize]
    exact log_charted_of_some g (hfailed.2 hk) (by have := hk.1.2.1; omega)
  · rcases Grammar.check_of_terminals hg hw with ⟨hd, -⟩ | ⟨-, hrejected⟩
    · -- the word is a form that begins with its first `k` symbols
      exact absurd ⟨input.drop k, by rwa [List.take_append_drop]⟩ hk.1.2.2
    · exact hrejected
  · have hnever : chart.failedAt = none := by
      refine Option.eq_none_iff_forall_ne_some.2 fun k hk => ?_
      exact Set.notMem_empty k (hnone ▸ (hfailed.1 hk).1)
    rw [hrecognize, log_charted_of_none g hnever, hsize]

/-- `ab` can be continued after each of its symbols in the sample, and its log has three blocks. In the grammar without words,
reading it fails at its second symbol. -/
theorem log_trace_sample :
    (Grammar.sample.recognize ['a', 'b']).log Grammar.sample (some .trace) =
      blocks Grammar.sample (Chart.ofInput Grammar.sample [3, 2]) 3 ∧
    (Grammar.endless.recognize ['a', 'b']).log Grammar.endless (some .trace) =
      blocks Grammar.endless (Chart.ofInput Grammar.endless [1, 2]) 2 ++ [failure 2] ∧
    Grammar.endless.check ['a', 'b'] = .rejected := by
  constructor
  · obtain ⟨-, -, hall⟩ := log_trace Grammar.ofDeclarations_sample Grammar.classify_sample
    rw [Grammar.filterMap_ids_sample] at hall
    refine hall (Set.eq_empty_of_forall_notMem fun k hk => ?_)
    obtain ⟨hpos, hle, hnot⟩ := hk
    obtain rfl | rfl : k = 1 ∨ k = 2 := by
      simp at hle
      omega
    · exact hnot ⟨[0, 2], Grammar.derives_sample⟩
    · exact hnot ⟨[], Grammar.derives_sample_ab⟩
  · obtain ⟨ha, hb⟩ := Grammar.ids_endless
    have hids : ['a', 'b'].filterMap Grammar.endless.table.id? = [1, 2] := by simp [ha, hb]
    obtain ⟨-, hfails, -⟩ := log_trace Grammar.ofDeclarations_endless Grammar.classify_endless
    rw [hids] at hfails
    refine hfails 2 ⟨⟨by decide, Nat.le_refl _, Grammar.viable_endless.2⟩, fun k hk => ?_⟩
    obtain ⟨hpos, -, hnot⟩ := hk
    by_contra hlt
    obtain rfl : k = 1 := by omega
    exact hnot Grammar.viable_endless.1

end Recognition

end CfgMembership
