/-
Words that begin alike are read alike as far as they do.

`recognize_of_same_front`: the columns over the common part are the same, with the items in the same order, the log shows the
same blocks for them, and recognition fails there for both words or for neither, and at the same symbol. That holds of the
charts because a chart begins with the chart of any front part of its input; here it is carried to words, logs and verdicts.
-/
import CfgMembership.Proofs.Chart.Front
import CfgMembership.Proofs.RecognitionLog

namespace CfgMembership

variable {σ : Type} [BEq σ] [Hashable σ] {g : Grammar σ}

/-! ## Recognition -/

namespace Grammar

variable {word : List σ}

theorem recognize_of_terminals (h : ∀ s ∈ word, g.classify s = .terminal) :
    g.recognize word = .charted (.ofInput g (word.filterMap g.table.id?)) := by
  simp [recognize, foreign?_eq_none_iff.2 h]

theorem take_ids (h : ∀ s ∈ word, g.classify s = .terminal) {k : Nat} (hk : k ≤ word.length) :
    (word.filterMap g.table.id?).take k = (word.take k).filterMap g.table.id? := by
  have hlength : ((word.take k).filterMap g.table.id?).length = k := by
    rw [length_ids fun s hs => h s (List.mem_of_mem_take hs), List.length_take, Nat.min_eq_left hk]
  conv_lhs => rw [← List.take_append_drop k word, List.filterMap_append]
  exact List.take_left' hlength

/-- words that begin alike begin with the same numbers -/
theorem ids_of_same_front [EquivBEq σ] [LawfulHashable σ] {u v : List σ} {k : Nat}
    (hu : ∀ s ∈ u, g.classify s = .terminal) (hv : ∀ s ∈ v, g.classify s = .terminal) (hk : k ≤ u.length)
    (hsame : u.take k == v.take k) :
    k ≤ v.length ∧ (u.filterMap g.table.id?).take k = (v.filterMap g.table.id?).take k := by
  have hids : (u.take k).map g.table.id? = (v.take k).map g.table.id? := SymbolTable.map_id?_congr hsame
  have hk' : k ≤ v.length := by
    have := congrArg List.length hids
    simp only [List.length_map, List.length_take] at this
    omega
  refine ⟨hk', ?_⟩
  have hfilter (word : List σ) : word.filterMap g.table.id? = (word.map g.table.id?).filterMap id := by
    rw [List.filterMap_map, Function.id_comp]
  rw [take_ids hu hk, take_ids hv hk', hfilter, hids, ← hfilter]

end Grammar

namespace Recognition

variable [Written σ]

/-- equal columns show the same blocks -/
theorem blocks_congr (g : Grammar σ) {chart chart' : Chart} {n : Nat}
    (h : ∀ i < n, chart.columns[i]? = chart'.columns[i]?) : blocks g chart n = blocks g chart' n := by
  unfold blocks
  refine List.flatMap_congr fun i hi => ?_
  simp only [block, Chart.itemsAt, h i (List.mem_range.1 hi)]

theorem blocks_isPrefix (g : Grammar σ) (chart : Chart) {n n' : Nat} (h : n ≤ n') :
    blocks g chart n <+: blocks g chart n' := by
  obtain ⟨d, rfl⟩ := Nat.exists_eq_add_of_le h
  rw [blocks, blocks, List.range_add, List.flatMap_append]
  exact List.prefix_append _ _

end Recognition

namespace Grammar

open Recognition

variable [Written σ]

section Logs

variable {word : List σ} (hw : ∀ s ∈ word, g.classify s = .terminal)

include hw

/-- a word at which reading fails is rejected, and its log ends there -/
theorem rejected_of_failedAt {m : Nat} (h : (Chart.ofInput g (word.filterMap g.table.id?)).failedAt = some m) :
    g.check word = .rejected ∧ (g.recognize word).log g (some .trace) =
      blocks g (.ofInput g (word.filterMap g.table.id?)) m ++ [failure m] := by
  rw [check, recognize_of_terminals hw, verdict, Chart.not_accepts_of_failedAt h]
  exact ⟨rfl, log_charted_of_some g h (Nat.le_of_lt (Chart.failedAt_lt h))⟩

/-- the log of a word begins with the blocks of the columns that reading did not fail at -/
theorem blocks_isPrefix_log {k : Nat} (hk : k ≤ word.length)
    (h : ∀ m ≤ k, (Chart.ofInput g (word.filterMap g.table.id?)).failedAt ≠ some m) :
    blocks g (.ofInput g (word.filterMap g.table.id?)) (k + 1) <+: (g.recognize word).log g (some .trace) := by
  rw [recognize_of_terminals hw]
  cases hfailed : (Chart.ofInput g (word.filterMap g.table.id?)).failedAt with
  | none =>
    rw [log_charted_of_none g hfailed, Chart.size_ofInput, length_ids hw]
    exact blocks_isPrefix g _ (Nat.succ_le_succ hk)
  | some m =>
    have hm : k < m := Nat.not_le.1 fun hle => h m hle hfailed
    rw [log_charted_of_some g hfailed (Nat.le_of_lt (Chart.failedAt_lt hfailed))]
    exact (blocks_isPrefix g _ hm).trans (List.prefix_append _ _)

end Logs

/-- **What follows a part of a word plays no part in how it is read.** Two words of terminals that agree on their first `k`
symbols are charted with the same columns up to `k`. Reading both fails at the same symbol up to `k`, or there for neither.
If it does, both words are rejected with the same log; otherwise both logs begin with the same blocks for these columns. -/
theorem recognize_of_same_front [EquivBEq σ] [LawfulHashable σ] (g : Grammar σ) {u v : List σ} {k : Nat}
    (hu : ∀ s ∈ u, g.classify s = .terminal) (hv : ∀ s ∈ v, g.classify s = .terminal) (hk : k ≤ u.length)
    (hsame : u.take k == v.take k) :
    ∃ chart chart', g.recognize u = .charted chart ∧ g.recognize v = .charted chart' ∧
      (∀ i ≤ k, ∃ c, chart.columns[i]? = some c ∧ chart'.columns[i]? = some c) ∧
      (∀ m ≤ k, chart.failedAt = some m ↔ chart'.failedAt = some m) ∧
      (∀ m ≤ k, chart.failedAt = some m → g.check u = .rejected ∧ g.check v = .rejected ∧
        (g.recognize u).log g (some .trace) = blocks g chart m ++ [failure m] ∧
        (g.recognize v).log g (some .trace) = blocks g chart m ++ [failure m]) ∧
      ((∀ m ≤ k, chart.failedAt ≠ some m) →
        blocks g chart (k + 1) <+: (g.recognize u).log g (some .trace) ∧
        blocks g chart (k + 1) <+: (g.recognize v).log g (some .trace)) := by
  obtain ⟨hk', hids⟩ := ids_of_same_front hu hv hk hsame
  obtain ⟨hcolumns, hfailed⟩ := Chart.of_same_front g (by rwa [length_ids hu]) hids
  have hblocks {n : Nat} (hn : n ≤ k + 1) : blocks g (.ofInput g (u.filterMap g.table.id?)) n =
      blocks g (.ofInput g (v.filterMap g.table.id?)) n := by
    refine blocks_congr g fun i hi => ?_
    obtain ⟨c, hc, hc'⟩ := hcolumns i (by omega)
    rw [hc, hc']
  refine ⟨_, _, recognize_of_terminals hu, recognize_of_terminals hv, hcolumns, hfailed, ?_, ?_⟩
  · intro m hm hfails
    obtain ⟨hcheck, hlog⟩ := rejected_of_failedAt hu hfails
    obtain ⟨hcheck', hlog'⟩ := rejected_of_failedAt hv ((hfailed m hm).1 hfails)
    rw [← hblocks (by omega)] at hlog'
    exact ⟨hcheck, hcheck', hlog, hlog'⟩
  · intro hnever
    refine ⟨blocks_isPrefix_log hu hk hnever, ?_⟩
    rw [hblocks (Nat.le_refl _)]
    exact blocks_isPrefix_log hv hk' fun m hm hfails => hnever m hm ((hfailed m hm).2 hfails)

/-- `ab` and `abb` agree on two symbols; reading fails at neither, so that both logs begin with the blocks of three columns -/
theorem recognize_of_same_front_sample : (∀ s ∈ ['a', 'b'], sample.classify s = .terminal) ∧
    (∀ s ∈ ['a', 'b', 'b'], sample.classify s = .terminal) ∧ 2 ≤ ['a', 'b'].length ∧
    (['a', 'b'].take 2 == ['a', 'b', 'b'].take 2) = true ∧
    ∃ chart chart', sample.recognize ['a', 'b'] = .charted chart ∧ sample.recognize ['a', 'b', 'b'] = .charted chart' ∧
      ∀ i ≤ 2, ∃ c, chart.columns[i]? = some c ∧ chart'.columns[i]? = some c := by
  have hv : ∀ s ∈ ['a', 'b', 'b'], sample.classify s = .terminal :=
    fun s hs => classify_sample s (by simpa using hs)
  obtain ⟨chart, chart', hchart, hchart', hcolumns, -⟩ :=
    recognize_of_same_front sample (k := 2) classify_sample hv (by decide) (by decide)
  exact ⟨classify_sample, hv, by decide, by decide, chart, chart', hchart, hchart', hcolumns⟩

end Grammar

end CfgMembership
