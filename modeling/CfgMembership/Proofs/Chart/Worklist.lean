/-
The work on a column ends, and takes each index once.

`Works g earlier c popped last` is the work without any bound on its steps: indices are taken off the front of the worklist
and worked off, `popped` in order, until it is empty, and the column is then `last`. The worklist grows meanwhile. That
closing runs out of neither steps nor items comes from the finite number of items: `works_close` says that the work on a
column ends where `close` ends, and `size_le_sum` bounds the items by the distinct productions.

`works_column` puts that together for the columns of a chart.
-/
import Mathlib.Algebra.BigOperators.Ring.Finset
import Mathlib.Algebra.Order.BigOperators.Group.Finset
import CfgMembership.Proofs.Chart.Front

namespace CfgMembership

variable {σ : Type} [BEq σ] [Hashable σ] {g : Grammar σ}

/-! ## Items and productions -/

/-- the productions of a grammar, each once, that of the augmented start symbol among them -/
def Grammar.productionSet (g : Grammar σ) : Finset Production := g.rules.toList.flatten.toFinset

theorem Grammar.mem_productionSet_iff {p : Production} : p ∈ g.productionSet ↔ ∃ lhs, p ∈ g.productionsOf lhs := by
  unfold productionSet productionsOf
  rw [List.mem_toFinset, List.mem_flatten]
  constructor
  · intro h
    obtain ⟨ps, hps, hp⟩ := h
    obtain ⟨lhs, hlhs⟩ := Array.getElem?_of_mem (Array.mem_def.2 hps)
    exact ⟨lhs, by rwa [hlhs]⟩
  · intro h
    obtain ⟨lhs, hp⟩ := h
    cases hps : g.rules[lhs]? with
    | none => simp [hps] at hp
    | some ps =>
      rw [hps, Option.getD_some] at hp
      exact ⟨ps, Array.mem_def.1 (Array.mem_of_getElem? hps), hp⟩

/-- every item of a production with a dot in it and an origin up to a position -/
def Item.places (g : Grammar σ) (i : Nat) : Finset Item :=
  g.productionSet.biUnion fun p => (Finset.range (p.rhs.length + 1) ×ˢ Finset.range (i + 1)).image fun place =>
    ⟨p.lhs, place.2, place.1, p.rhs⟩

theorem Item.Within.mem_places {i : Nat} {it : Item} (h : it.Within g i) : it ∈ Item.places g i := by
  refine Finset.mem_biUnion.2 ⟨⟨it.head, it.body⟩, Grammar.mem_productionSet_iff.2 ⟨_, h.production⟩, ?_⟩
  refine Finset.mem_image.2 ⟨(it.dot, it.origin), Finset.mem_product.2 ⟨?_, ?_⟩, rfl⟩
  · exact Finset.mem_range.2 (Nat.lt_succ_of_le h.dot_le)
  · exact Finset.mem_range.2 (Nat.lt_succ_of_le h.origin_le)

theorem Item.card_places_le (g : Grammar σ) (i : Nat) :
    (Item.places g i).card ≤ (i + 1) * ∑ p ∈ g.productionSet, (p.rhs.length + 1) := by
  rw [Finset.mul_sum]
  refine Finset.card_biUnion_le.trans (Finset.sum_le_sum fun p _ => Finset.card_image_le.trans ?_)
  rw [Finset.card_product, Finset.card_range, Finset.card_range, Nat.mul_comm]

namespace Column

variable {earlier : Array Column} {c : Column} {i : Nat}

/-- the items of a column are no more than the places for a dot and an origin in the distinct productions -/
theorem size_le_sum (hnodup : c.items.toList.Nodup) (h : ∀ it ∈ c.items, it.Within g i) :
    c.items.size ≤ (i + 1) * ∑ p ∈ g.productionSet, (p.rhs.length + 1) := by
  have hsubset : c.items.toList.toFinset ⊆ Item.places g i := by
    intro it hit
    exact (h it (Array.mem_def.2 (List.mem_toFinset.1 hit))).mem_places
  calc c.items.size = c.items.toList.toFinset.card := (List.toFinset_card_of_nodup hnodup).symm
    _ ≤ (Item.places g i).card := Finset.card_le_card hsubset
    _ ≤ (i + 1) * ∑ p ∈ g.productionSet, (p.rhs.length + 1) := Item.card_places_le g i

/-! ## Work without a bound -/

/-- the work on a column after `earlier`: indices are taken off the front of the worklist and worked off until it is empty -/
inductive Works (g : Grammar σ) (earlier : Array Column) : Column → List Nat → Column → Prop where
  | done {c : Column} (empty : c.worklist.take? = none) : Works g earlier c [] c
  | step {c last : Column} {index : Nat} {w : Worklist} {popped : List Nat}
    (taken : c.worklist.take? = some (index, w))
    (rest : Works g earlier ({ c with worklist := w }.workOff g earlier index) popped last) :
    Works g earlier c (index :: popped) last

/-- there is one way to do the work -/
theorem Works.unique {popped popped' : List Nat} {last last' : Column} (h : Works g earlier c popped last)
    (h' : Works g earlier c popped' last') : popped' = popped ∧ last' = last := by
  induction h generalizing popped' with
  | done empty =>
    cases h' with
    | done => exact ⟨rfl, rfl⟩
    | step taken => rw [empty] at taken; cases taken
  | step taken _ ih =>
    cases h' with
    | done empty => rw [taken] at empty; cases empty
    | step taken' rest' =>
      rw [taken] at taken'
      cases taken'
      obtain ⟨rfl, rfl⟩ := ih rest'
      exact ⟨rfl, rfl⟩

theorem take?_eq_none_iff {w : Worklist} : w.take? = none ↔ w.indices.size ≤ w.taken := by
  rw [Worklist.take?, Option.map_eq_none_iff, Array.getElem?_eq_none_iff]

/-- indices are only added to a worklist at its back -/
theorem indices_isPrefix_drain (g : Grammar σ) (earlier : Array Column) (fuel : Nat) (c : Column) :
    c.worklist.indices.toList <+: (c.drain g earlier fuel).worklist.indices.toList := by
  refine drain_induction (P := fun d => c.worklist.indices.toList <+: d.worklist.indices.toList) ?_ fuel
    (List.prefix_refl _)
  intro d index w hd htake
  obtain ⟨-, rfl⟩ := take?_eq_some_iff.1 htake
  exact hd.trans (grows_workOff g earlier { d with worklist := { d.worklist with taken := d.worklist.taken + 1 } } index).indices

/-- work that is bounded, and comes to an empty worklist, is the work without a bound -/
theorem works_drain {fuel : Nat} (hdone : (c.drain g earlier fuel).worklist.take? = none) :
    Works g earlier c ((c.drain g earlier fuel).worklist.indices.toList.drop c.worklist.taken)
      (c.drain g earlier fuel) := by
  induction fuel generalizing c with
  | zero =>
    have hle : c.worklist.indices.toList.length ≤ c.worklist.taken := take?_eq_none_iff.1 hdone
    rw [Column.drain, List.drop_of_length_le hle]
    exact .done hdone
  | succ fuel ih =>
    cases htake : c.worklist.take? with
    | none =>
      have hdrain : c.drain g earlier (fuel + 1) = c := by simp only [Column.drain, htake]
      have hle : c.worklist.indices.toList.length ≤ c.worklist.taken := take?_eq_none_iff.1 htake
      rw [hdrain, List.drop_of_length_le hle]
      exact .done htake
    | some taken =>
      obtain ⟨index, w⟩ := taken
      have hdrain : c.drain g earlier (fuel + 1) =
          ({ c with worklist := w }.workOff g earlier index).drain g earlier fuel := by
        simp only [Column.drain, htake]
      have hgrows := grows_workOff g earlier { c with worklist := w } index
      have hrest := ih (hdrain ▸ hdone)
      obtain ⟨hindex, rfl⟩ := take?_eq_some_iff.1 htake
      -- the index that is taken stands at the same place of the last worklist
      have hlast : (c.drain g earlier (fuel + 1)).worklist.indices.toList[c.worklist.taken]? = some index := by
        obtain ⟨more, hmore⟩ := indices_isPrefix_drain g earlier (fuel + 1) c
        have hlt : c.worklist.taken < c.worklist.indices.toList.length := (Array.getElem?_eq_some_iff.1 hindex).1
        rw [← hmore, List.getElem?_append_left hlt, Array.getElem?_toList, hindex]
      rw [← hdrain, hgrows.taken] at hrest
      obtain ⟨hlt, hget⟩ := List.getElem?_eq_some_iff.1 hlast
      rw [List.drop_eq_getElem_cons hlt, hget]
      exact .step htake hrest

/-- what is taken off the worklist are the positions of the items that wait for no terminal, in order -/
theorem works_close (hg : g.Lawful) (hearlier : AllSettled g earlier) {its : List Item}
    (hits : ∀ it ∈ its, it.Within g earlier.size) :
    ∃ last, Works g earlier (ofList g its) (positions g last.items (· != .terminal)) last ∧
      (ofList g its).close g earlier = last.sealOff := by
  have hstart : Draining g earlier (ofList g its) := draining_ofList hits
  obtain ⟨hdrain, hdone⟩ := hstart.drain hg hearlier (Nat.le_add_left _ _)
  have hworks := works_drain (take?_eq_none_iff.2 hdone)
  rw [taken_ofList, List.drop_zero, hdrain.indices] at hworks
  exact ⟨_, hworks, rfl⟩

theorem pairwise_positions (g : Grammar σ) (items : Array Item) (P : Expected → Bool) :
    (positions g items P).Pairwise (· < ·) :=
  List.pairwise_lt_range.filter _

/-! ## The columns of a chart -/

theorem AllSettled.extract {columns : Array Column} (h : AllSettled g columns) (i : Nat) :
    AllSettled g (columns.extract 0 i) := by
  intro j d hd
  rw [Array.getElem?_extract] at hd
  split at hd
  · rename_i hj
    rw [Nat.zero_add] at hd
    have hji : j ≤ i := by omega
    rw [Array.extract_extract, Nat.zero_add, Nat.zero_add, Nat.min_eq_left hji]
    exact h j d hd
  · cases hd

end Column

namespace Chart

open Column

variable {input : List Nat} {i : Nat} {c : Column}

/-- what enters a column is of the grammar, and begins there or before -/
theorem within_of_entering (hg : g.Lawful) (hw : ∀ t ∈ input, g.kind t = .terminal)
    (hnever : ∀ m ≤ i, (ofInput g input).failedAt ≠ some m) (hc : (ofInput g input).columns[i]? = some c) :
    ∀ it ∈ entering g input (ofInput g input).columns i, it.Within g ((ofInput g input).columns.extract 0 i).size := by
  intro it hit
  have hsettled : Settled g ((ofInput g input).columns.extract 0 i) c := (reading_ofInput hg hw).settled i c hc
  refine hsettled.within it ?_
  rw [column_eq_close hnever hc]
  exact mem_close_of_mem hit

/-- the work on the column at a position, after the columns before it and from the items that enter it -/
def WorksAt (g : Grammar σ) (input : List Nat) (i : Nat) (popped : List Nat) (last : Column) : Prop :=
  Works g ((ofInput g input).columns.extract 0 i) (ofList g (entering g input (ofInput g input).columns i)) popped last

variable [Written σ] [EquivBEq σ] [LawfulHashable σ] {ds : List (Declaration σ)}

/-- an item waits for a terminal just when a terminal comes next in its body -/
theorem expected_ne_terminal_iff (h : Grammar.ofDeclarations ds = .ok g) {it : Item} (hit : it.Within g i) :
    it.expected g ≠ .terminal ↔ ∀ t, it.next? = some t → g.kind t ≠ .terminal := by
  unfold Item.expected
  cases hnext : it.next? with
  | none => simp
  | some s =>
    have hkind := Grammar.kind_rhs_of_ofDeclarations h hit.production (List.mem_of_getElem? hnext)
    rcases hkind with hkind | hkind <;> simp [hkind]

/-- **The work on a column ends.** It takes indices off the worklist in ascending order, and they are the positions of the items
in the column that wait for no terminal; the column is then sealed as it is. A column that reading did not get to is empty. In
any case the items are no more than the places for a dot and an origin in the distinct productions. -/
theorem works_column (h : Grammar.ofDeclarations ds = .ok g) (hw : ∀ t ∈ input, g.kind t = .terminal)
    (hc : (ofInput g input).columns[i]? = some c) :
    ((∀ m ≤ i, (ofInput g input).failedAt ≠ some m) → (∃ popped last, WorksAt g input i popped last) ∧
      ∀ popped last, WorksAt g input i popped last → c = last.sealOff ∧ popped.Pairwise (· < ·) ∧
        ∀ n, n ∈ popped ↔ ∃ it, c.items[n]? = some it ∧ ∀ t, it.next? = some t → g.kind t ≠ .terminal) ∧
    (∀ m ≤ i, (ofInput g input).failedAt = some m → c = .empty) ∧
    c.items.size ≤ (i + 1) * ∑ p ∈ g.productionSet, (p.rhs.length + 1) := by
  have hg := Grammar.lawful_of_ofDeclarations h
  have hsettled : AllSettled g (ofInput g input).columns := (reading_ofInput hg hw).settled
  have hwithin : ∀ it ∈ c.items, it.Within g i := hsettled.within hc
  refine ⟨fun hnever => ?_, fun m hm hfailed => column_eq_empty hfailed hm hc, ?_⟩
  · obtain ⟨last, hworks, hclose⟩ := works_close hg (hsettled.extract i) (within_of_entering hg hw hnever hc)
    refine ⟨⟨_, last, hworks⟩, fun popped last' hworks' => ?_⟩
    obtain ⟨rfl, rfl⟩ := hworks.unique hworks'
    have hc' : c = last'.sealOff := (column_eq_close hnever hc).trans hclose
    refine ⟨hc', pairwise_positions g _ _, fun n => ?_⟩
    have hitems : last'.items = c.items := by rw [hc']; rfl
    rw [mem_positions, hitems]
    refine exists_congr fun it => and_congr_right fun hn => ?_
    rw [← expected_ne_terminal_iff h (hwithin it (Array.mem_of_getElem? hn)), bne_iff_ne]
  · exact size_le_sum (hsettled i c hc).coherent.nodup hwithin

/-- column 0 of the chart of `ab`: the production of the augmented start symbol enters it, and working it off ends -/
theorem works_column_sample : Grammar.ofDeclarations Grammar.sampleDeclarations = .ok Grammar.sample ∧
    (∀ t ∈ [3, 2], Grammar.sample.kind t = .terminal) ∧ ∃ c, (ofInput Grammar.sample [3, 2]).columns[0]? = some c ∧
      (∃ popped last, WorksAt Grammar.sample [3, 2] 0 popped last ∧ c = last.sealOff ∧ popped.Pairwise (· < ·)) ∧
      c.items.size ≤ (0 + 1) * ∑ p ∈ Grammar.sample.productionSet, (p.rhs.length + 1) := by
  have hw : ∀ t ∈ [3, 2], Grammar.sample.kind t = .terminal := fun t ht =>
    Grammar.kind_sample (by simpa [or_comm] using ht)
  have hsize : 0 < (ofInput Grammar.sample [3, 2]).columns.size := by
    rw [size_ofInput]
    exact Nat.succ_pos _
  have hc := Array.getElem?_eq_getElem hsize
  obtain ⟨hends, -, hitems⟩ := works_column Grammar.ofDeclarations_sample hw hc
  -- nothing is read before column 0, so reading cannot fail there
  have hnever : ∀ m ≤ 0, (ofInput Grammar.sample [3, 2]).failedAt ≠ some m := by
    intro m hm hfailed
    cases ((begins_ofInput Grammar.sample [3, 2] 0).failedAt m (Nat.lt_succ_of_le hm)).1 hfailed
  obtain ⟨⟨popped, last, hworks⟩, hall⟩ := hends hnever
  obtain ⟨hlast, hascending, -⟩ := hall popped last hworks
  exact ⟨Grammar.ofDeclarations_sample, hw, _, hc, ⟨popped, last, hworks, hlast, hascending⟩, hitems⟩

end Chart

end CfgMembership
