/-
Reading from left to right: what follows a part of an input plays no part in how that part is read.

`Begins front chart` says that one chart is the front part of another: its columns are the first columns there, with all that
they hold, and the two agree on a failure up to there. Reading on keeps it (`begins_extend`), so the chart of the front part
of an input begins the chart of the input (`begins_ofInput`). The column at a position is therefore the last column of the
chart of what comes before (`column_eq_close`): it is closed after the columns before it, from the items that the symbol
before the position moves there, or reading failed and it is empty.
-/
import CfgMembership.Proofs.Chart.Reading

namespace CfgMembership

variable {σ : Type} [BEq σ] [Hashable σ] {g : Grammar σ}

namespace Chart

open Column

variable {chart : Chart} {m : Nat}

theorem failedAt_start (g : Grammar σ) : (start g).failedAt = none := rfl

theorem size_extend (g : Grammar σ) (chart : Chart) (rest : List Nat) :
    (chart.extend g rest).columns.size = chart.columns.size + rest.length := by
  induction rest generalizing chart with
  | nil => rfl
  | cons t rest ih =>
    by_cases hscanned : scanned chart.last t = []
    · rw [extend_of_stuck hscanned]
      simp
    · rw [extend_of_scanned hscanned, ih]
      simp only [Array.size_push, List.length_cons]
      omega

theorem size_ofInput (g : Grammar σ) (input : List Nat) : (ofInput g input).columns.size = input.length + 1 := by
  rw [ofInput, size_extend, Nat.add_comm]
  rfl

/-- one chart is the front part of another -/
structure Begins (front chart : Chart) : Prop where
  columns : front.columns.toList <+: chart.columns.toList
  failedAt : ∀ m < front.columns.size, chart.failedAt = some m ↔ front.failedAt = some m

/-- reading on adds columns, and cannot fail at a symbol that was read -/
theorem begins_extend (g : Grammar σ) {chart : Chart} (h : chart.failedAt = none) (rest : List Nat) :
    chart.Begins (chart.extend g rest) := by
  induction rest generalizing chart with
  | nil => exact ⟨List.prefix_refl _, fun _ _ => Iff.rfl⟩
  | cons t rest ih =>
    by_cases hscanned : scanned chart.last t = []
    · rw [extend_of_stuck hscanned]
      refine ⟨by simp, fun m hm => ?_⟩
      simp only [h, Option.some.injEq, reduceCtorEq, iff_false]
      omega
    · rw [extend_of_scanned hscanned]
      obtain ⟨hcolumns, hfailed⟩ := @ih { chart with columns := chart.columns.push _ } h
      refine ⟨List.IsPrefix.trans (by simp) hcolumns, fun m hm => ?_⟩
      exact hfailed m (by simp only [Array.size_push]; omega)

/-- the rest of an input plays no part before it is read -/
theorem begins_extend_append (g : Grammar σ) {chart : Chart} (h : chart.failedAt = none) (front rest : List Nat) :
    (chart.extend g front).Begins (chart.extend g (front ++ rest)) := by
  induction front generalizing chart with
  | nil => exact begins_extend g h rest
  | cons t front ih =>
    rw [List.cons_append]
    by_cases hscanned : scanned chart.last t = []
    · -- no column is closed any more, in either chart
      rw [extend_of_stuck hscanned, extend_of_stuck hscanned]
      refine ⟨?_, fun _ _ => Iff.rfl⟩
      simp only [Array.toList_append, Array.toList_replicate, List.prefix_append_right_inj, List.length_append]
      exact ⟨List.replicate rest.length .empty, by rw [List.replicate_append_replicate, Nat.add_right_comm]⟩
    · rw [extend_of_scanned hscanned, extend_of_scanned hscanned]
      exact ih h

/-- the chart of the front part of an input begins the chart of the input -/
theorem begins_ofInput (g : Grammar σ) (input : List Nat) (k : Nat) :
    (ofInput g (input.take k)).Begins (ofInput g input) := by
  have h := begins_extend_append g (failedAt_start g) (input.take k) (input.drop k)
  rwa [List.take_append_drop] at h

theorem Begins.getElem?_eq {front : Chart} (h : front.Begins chart) {i : Nat} {c : Column}
    (hc : front.columns[i]? = some c) : chart.columns[i]? = some c := by
  obtain ⟨more, hmore⟩ := h.columns
  have hi : i < front.columns.toList.length := (Array.getElem?_eq_some_iff.1 hc).1
  rwa [← Array.getElem?_toList, ← hmore, List.getElem?_append_left hi, Array.getElem?_toList]

/-- inputs that begin alike have the same columns for what they begin with, and fail there at the same symbol, if at all -/
theorem of_same_front (g : Grammar σ) {input input' : List Nat} {k : Nat} (hk : k ≤ input.length)
    (hsame : input.take k = input'.take k) :
    (∀ i ≤ k, ∃ c, (ofInput g input).columns[i]? = some c ∧ (ofInput g input').columns[i]? = some c) ∧
      ∀ m ≤ k, (ofInput g input).failedAt = some m ↔ (ofInput g input').failedAt = some m := by
  have hbegins : (ofInput g (input.take k)).Begins (ofInput g input) := begins_ofInput g input k
  have hbegins' : (ofInput g (input.take k)).Begins (ofInput g input') := hsame ▸ begins_ofInput g input' k
  have hlt {i : Nat} (hi : i ≤ k) : i < (ofInput g (input.take k)).columns.size := by
    rw [size_ofInput, List.length_take, Nat.min_eq_left hk]
    omega
  refine ⟨fun i hi => ?_, fun m hm => ?_⟩
  · have hc := Array.getElem?_eq_getElem (hlt hi)
    exact ⟨_, hbegins.getElem?_eq hc, hbegins'.getElem?_eq hc⟩
  · exact (hbegins.failedAt m (hlt hm)).trans (hbegins'.failedAt m (hlt hm)).symm

/-! ## Where reading failed -/

/-- where reading fails there is a column, and no item reaches it or one after it -/
theorem of_failedAt_extend (g : Grammar σ) {chart : Chart} (hchart : chart.failedAt = none) {rest : List Nat}
    (h : (chart.extend g rest).failedAt = some m) :
    m < (chart.extend g rest).columns.size ∧
      ∀ (i : Nat) (c : Column), m ≤ i → (chart.extend g rest).columns[i]? = some c → c = .empty := by
  induction rest generalizing chart with
  | nil =>
    rw [extend, hchart] at h
    cases h
  | cons t rest ih =>
    by_cases hscanned : scanned chart.last t = []
    · rw [extend_of_stuck hscanned] at h ⊢
      cases h
      refine ⟨by simp, fun i c hi hc => ?_⟩
      rw [Array.getElem?_append_right hi, Array.getElem?_replicate] at hc
      split at hc
      · exact (Option.some.inj hc).symm
      · cases hc
    · rw [extend_of_scanned hscanned] at h ⊢
      exact ih hchart h

variable {input : List Nat}

theorem failedAt_lt (h : (ofInput g input).failedAt = some m) : m < (ofInput g input).columns.size :=
  (of_failedAt_extend g (failedAt_start g) h).1

theorem column_eq_empty (h : (ofInput g input).failedAt = some m) {i : Nat} {c : Column} (hi : m ≤ i)
    (hc : (ofInput g input).columns[i]? = some c) : c = .empty :=
  (of_failedAt_extend g (failedAt_start g) h).2 i c hi hc

theorem not_accepts_of_failedAt (h : (ofInput g input).failedAt = some m) : (ofInput g input).accepts g = false := by
  have hlt : m < (ofInput g input).columns.size := failedAt_lt h
  rw [size_ofInput] at hlt
  have hlast : (ofInput g input).last = .empty :=
    column_eq_empty h (Nat.le_of_lt_succ hlt) (getElem?_last (size_ofInput g input))
  simp [accepts, hlast, empty, contains]

/-! ## How a column comes about -/

/-- the items that the column at a position starts from: the productions of the augmented start symbol at first, and then the
items of the column before that waited for the symbol in between, past it -/
def entering (g : Grammar σ) (input : List Nat) (columns : Array Column) : Nat → List Item
  | 0 => (g.productionsOf g.augmentedStart).map (Item.ofProduction · 0)
  | i + 1 =>
    match columns[i]?, input[i]? with
    | some c, some t => scanned c t
    | _, _ => []

theorem extend_append (g : Grammar σ) {chart : Chart} (hchart : chart.failedAt = none) {front : List Nat}
    (h : (chart.extend g front).failedAt = none) (rest : List Nat) :
    chart.extend g (front ++ rest) = (chart.extend g front).extend g rest := by
  induction front generalizing chart with
  | nil => rfl
  | cons t front ih =>
    by_cases hscanned : scanned chart.last t = []
    · rw [extend_of_stuck hscanned] at h
      cases h
    · rw [extend_of_scanned hscanned] at h
      rw [List.cons_append, extend_of_scanned hscanned, extend_of_scanned hscanned]
      exact ih hchart h

theorem Begins.extract_eq {front : Chart} (h : front.Begins chart) {n : Nat} (hn : front.columns.size = n) :
    chart.columns.extract 0 n = front.columns := by
  obtain ⟨more, hmore⟩ := h.columns
  rw [← Array.toList_inj, Array.toList_extract, ← hmore, ← hn]
  simp

/-- up to a position that reading did not fail at, there was no failure -/
theorem failedAt_take {i : Nat} (hi : i ≤ input.length) (hnever : ∀ m ≤ i, (ofInput g input).failedAt ≠ some m) :
    (ofInput g (input.take i)).failedAt = none := by
  refine Option.eq_none_iff_forall_ne_some.2 fun m hm => ?_
  have hlt := failedAt_lt hm
  refine hnever m ?_ (((begins_ofInput g input i).failedAt m hlt).2 hm)
  rw [size_ofInput, List.length_take] at hlt
  omega

/-- **How a column comes about.** Unless reading failed there or before, the column at a position is closed after the columns
before it, from the items that enter it. -/
theorem column_eq_close {i : Nat} {c : Column} (hnever : ∀ m ≤ i, (ofInput g input).failedAt ≠ some m)
    (hc : (ofInput g input).columns[i]? = some c) :
    c = (ofList g (entering g input (ofInput g input).columns i)).close g ((ofInput g input).columns.extract 0 i) := by
  have hi : i < (ofInput g input).columns.size := (Array.getElem?_eq_some_iff.1 hc).1
  rw [size_ofInput] at hi
  cases i with
  | zero =>
    have hfirst : (ofInput g (input.take 0)).columns[0]? =
        some ((ofList g (entering g input (ofInput g input).columns 0)).close g #[]) := rfl
    have hcolumn := (begins_ofInput g input 0).getElem?_eq hfirst
    rw [hc, Option.some.injEq] at hcolumn
    rw [hcolumn, Array.extract_zero]
  | succ i =>
    have hlt : i < input.length := Nat.lt_of_succ_lt_succ hi
    set front := ofInput g (input.take i) with hfront
    have hsize : front.columns.size = i + 1 := by
      rw [hfront, size_ofInput, List.length_take, Nat.min_eq_left (Nat.le_of_lt hlt)]
    have hbefore : front.failedAt = none :=
      failedAt_take (Nat.le_of_lt hlt) fun m hm => hnever m (Nat.le_succ_of_le hm)
    have hnext : ofInput g (input.take (i + 1)) = front.extend g [input[i]] := by
      rw [List.take_succ_eq_append_getElem hlt]
      exact extend_append g (failedAt_start g) hbefore _
    have hlater : (ofInput g (input.take (i + 1))).failedAt = none := failedAt_take hlt hnever
    -- the symbol is awaited, or else reading would fail here
    have hscanned : scanned front.last input[i] ≠ [] := by
      intro hstuck
      rw [hnext, extend_of_stuck hstuck] at hlater
      cases hlater
    rw [extend_of_scanned hscanned] at hnext
    have hcolumn : (ofInput g (input.take (i + 1))).columns[i + 1]? =
        some ((ofList g (scanned front.last input[i])).close g front.columns) := by
      rw [hnext, ← hsize]
      exact Array.getElem?_push_size
    have hlast : (ofInput g input).columns[i]? = some front.last :=
      (begins_ofInput g input i).getElem?_eq (getElem?_last hsize)
    have hentering : entering g input (ofInput g input).columns (i + 1) = scanned front.last input[i] := by
      simp only [entering, hlast, List.getElem?_eq_getElem hlt]
    rw [(begins_ofInput g input (i + 1)).getElem?_eq hcolumn, Option.some.injEq] at hc
    rw [← hc, hentering, (begins_ofInput g input i).extract_eq hsize]

end Chart

end CfgMembership
