/-
A column keeps one collection of items in four ways, and they agree.

`Coherent g c`: no item stands in the column twice, the set `seen` holds the same items as the array, and the index
`waiting` lists under each expectation the positions of the items that have it, in ascending order. `Open g c` adds
the worklist of a column at work: the positions of all items that do not wait for a terminal, of which the first few
are taken. `insert` keeps both, adds nothing but the item, and leaves all positions as they were (`Grows`).
-/
import Std.Data.HashMap.Lemmas
import Std.Data.HashSet.Lemmas
import CfgMembership.Chart.Column

namespace CfgMembership.Column

variable {σ : Type} [BEq σ] [Hashable σ] {g : Grammar σ} {c : Column} {it it' : Item}

/-! ## Positions by expectation -/

/-- the positions of the items whose expectation has a property, ascending -/
def positions (g : Grammar σ) (items : Array Item) (P : Expected → Bool) : List Nat :=
  (List.range items.size).filter fun n => items[n]?.any fun it => P (it.expected g)

theorem mem_positions {items : Array Item} {P : Expected → Bool} {n : Nat} :
    n ∈ positions g items P ↔ ∃ it, items[n]? = some it ∧ P (it.expected g) = true := by
  simp only [positions, List.mem_filter, List.mem_range, Option.any_eq_true]
  constructor
  · rintro ⟨-, it, hn, hP⟩
    exact ⟨it, hn, hP⟩
  · rintro ⟨it, hn, hP⟩
    exact ⟨(Array.getElem?_eq_some_iff.1 hn).1, it, hn, hP⟩

theorem positions_push (items : Array Item) (it : Item) (P : Expected → Bool) :
    positions g (items.push it) P = positions g items P ++ if P (it.expected g) then [items.size] else [] := by
  rw [positions, Array.size_push, List.range_succ, List.filter_append]
  congr 1
  · refine List.filter_congr fun n hn => ?_
    have hn : n ≠ items.size := Nat.ne_of_lt (List.mem_range.1 hn)
    rw [Array.getElem?_push, if_neg hn]
  · by_cases hP : P (it.expected g) <;> simp [hP]

/-! ## Agreement -/

/-- the items, the set of them and the index agree, and no item is there twice -/
structure Coherent (g : Grammar σ) (c : Column) : Prop where
  nodup : c.items.toList.Nodup
  seen : ∀ it, c.contains it = true ↔ it ∈ c.items
  waiting : ∀ e, (c.waiting[e]?.getD #[]).toList = positions g c.items (· == e)

theorem coherent_empty : Coherent g empty where
  nodup := List.nodup_nil
  seen := by simp [empty, contains]
  waiting := by simp [empty, positions]

/-- the index finds the items with an expectation -/
theorem Coherent.mem_waitingFor (h : Coherent g c) {e : Expected} :
    it ∈ c.waitingFor e ↔ it ∈ c.items ∧ it.expected g = e := by
  simp only [waitingFor, h.waiting, List.mem_filterMap, mem_positions, beq_iff_eq]
  constructor
  · rintro ⟨n, ⟨it', hn', he⟩, hn⟩
    cases hn'.symm.trans hn
    exact ⟨Array.mem_of_getElem? hn, he⟩
  · rintro ⟨hit, he⟩
    obtain ⟨n, hn⟩ := Array.getElem?_of_mem hit
    exact ⟨n, ⟨it, hn, he⟩, hn⟩

/-- inserting an item that is there changes nothing -/
theorem Coherent.insert_of_mem (h : Coherent g c) (hit : it ∈ c.items) : c.insert g it = c := by
  simp [insert, (h.seen it).2 hit]

theorem Coherent.insert_of_notMem (h : Coherent g c) (hit : it ∉ c.items) :
    c.insert g it =
      { c with
        items := c.items.push it
        seen := c.seen.insert it
        waiting := c.waiting.alter (it.expected g) fun indices => some ((indices.getD #[]).push c.items.size)
        worklist := if it.expected g = .terminal then c.worklist else c.worklist.push c.items.size } := by
  have : ¬c.contains it = true := mt (h.seen it).1 hit
  simp [insert, this]

theorem Coherent.insert (h : Coherent g c) (it : Item) : Coherent g (c.insert g it) := by
  by_cases hit : it ∈ c.items
  · rwa [h.insert_of_mem hit]
  · rw [h.insert_of_notMem hit]
    refine ⟨?_, fun it' => ?_, fun e => ?_⟩
    · rw [Array.toList_push, List.nodup_append]
      refine ⟨h.nodup, List.pairwise_singleton _ it, fun a ha b hb => ?_⟩
      rintro rfl
      rw [List.mem_singleton] at hb
      exact hit (hb ▸ Array.mem_def.2 ha)
    · have := h.seen it'
      simp only [contains] at this ⊢
      rw [Std.HashSet.contains_insert, Bool.or_eq_true, this, Array.mem_push, beq_iff_eq, or_comm, eq_comm]
    · have hold := h.waiting e
      rw [positions_push, ← hold, Std.HashMap.getElem?_alter]
      by_cases he : it.expected g = e
      · subst he
        simp
      · simp [he]

theorem Coherent.mem_insert (h : Coherent g c) : it' ∈ (c.insert g it).items ↔ it' ∈ c.items ∨ it' = it := by
  by_cases hit : it ∈ c.items
  · rw [h.insert_of_mem hit]
    exact ⟨.inl, fun h' => h'.elim id fun heq => heq ▸ hit⟩
  · rw [h.insert_of_notMem hit]
    exact Array.mem_push

theorem Coherent.insertAll (h : Coherent g c) (its : List Item) : Coherent g (c.insertAll g its) := by
  induction its generalizing c with
  | nil => exact h
  | cons it its ih => exact ih (h.insert it)

theorem Coherent.mem_insertAll (h : Coherent g c) (its : List Item) :
    it' ∈ (c.insertAll g its).items ↔ it' ∈ c.items ∨ it' ∈ its := by
  induction its generalizing c with
  | nil => simp [Column.insertAll]
  | cons it its ih =>
    refine (ih (h.insert it)).trans ?_
    rw [h.mem_insert, List.mem_cons, or_assoc]

theorem coherent_ofList (its : List Item) : Coherent g (ofList g its) := coherent_empty.insertAll its

theorem mem_ofList {its : List Item} : it ∈ (ofList g its).items ↔ it ∈ its := by
  refine (coherent_empty.mem_insertAll its).trans ?_
  simp [empty]

/-! ## Columns at work -/

/-- a column that takes items: it is not sealed, and its worklist names the items that do not wait for a terminal -/
structure Open (g : Grammar σ) (c : Column) : Prop extends Coherent g c where
  indices : c.worklist.indices.toList = positions g c.items (· != .terminal)
  taken_le : c.worklist.taken ≤ c.worklist.indices.size
  unsealed : c.sealed = false

theorem open_empty : Open g empty where
  toCoherent := coherent_empty
  indices := by simp [empty, positions]
  taken_le := Nat.le_refl 0
  unsealed := rfl

theorem Open.insert (h : Open g c) (it : Item) : Open g (c.insert g it) := by
  by_cases hit : it ∈ c.items
  · rwa [h.insert_of_mem hit]
  · refine { h.toCoherent.insert it with indices := ?_, taken_le := ?_, unsealed := ?_ } <;>
      rw [h.insert_of_notMem hit]
    · have hold := h.indices
      rw [positions_push, ← hold]
      by_cases he : it.expected g = .terminal <;> simp [he, Worklist.push]
    · have hle := h.taken_le
      by_cases he : it.expected g = .terminal
      · simpa [he] using hle
      · simp only [he, ↓reduceIte, Worklist.push, Array.size_push]
        omega
    · exact h.unsealed

theorem Open.insertAll (h : Open g c) (its : List Item) : Open g (c.insertAll g its) := by
  induction its generalizing c with
  | nil => exact h
  | cons it its ih => exact ih (h.insert it)

theorem open_ofList (its : List Item) : Open g (ofList g its) := open_empty.insertAll its

/-- one column is another with items added at the back -/
structure Grows (c d : Column) : Prop where
  items : c.items.toList <+: d.items.toList
  indices : c.worklist.indices.toList <+: d.worklist.indices.toList
  taken : d.worklist.taken = c.worklist.taken

theorem Grows.refl (c : Column) : Grows c c := ⟨List.prefix_refl _, List.prefix_refl _, rfl⟩

theorem Grows.trans {c d e : Column} (h : Grows c d) (h' : Grows d e) : Grows c e :=
  ⟨h.items.trans h'.items, h.indices.trans h'.indices, h'.taken.trans h.taken⟩

/-- an item stays at its position -/
theorem Grows.getElem?_eq {d : Column} (h : Grows c d) {n : Nat} (hn : n < c.items.size) :
    d.items[n]? = c.items[n]? := by
  obtain ⟨added, hadded⟩ := h.items
  rw [← Array.getElem?_toList, ← Array.getElem?_toList, ← hadded]
  exact List.getElem?_append_left hn

/-- the indices taken so far are the same -/
theorem Grows.take_indices {d : Column} (h : Grows c d) (hle : c.worklist.taken ≤ c.worklist.indices.size) :
    d.worklist.indices.toList.take d.worklist.taken = c.worklist.indices.toList.take c.worklist.taken := by
  obtain ⟨added, hadded⟩ := h.indices
  rw [h.taken, ← hadded]
  exact List.take_append_of_le_length hle

theorem grows_insert (g : Grammar σ) (c : Column) (it : Item) : Grows c (c.insert g it) := by
  unfold insert
  split
  · exact Grows.refl c
  · refine ⟨by simp, ?_, ?_⟩ <;> by_cases he : it.expected g = .terminal <;> simp [he, Worklist.push]

theorem grows_insertAll (g : Grammar σ) (c : Column) (its : List Item) : Grows c (c.insertAll g its) := by
  induction its generalizing c with
  | nil => exact Grows.refl c
  | cons it its ih => exact (grows_insert g c it).trans (ih _)

theorem taken_ofList (its : List Item) : (ofList g its).worklist.taken = 0 := (grows_insertAll g empty its).taken

end CfgMembership.Column
