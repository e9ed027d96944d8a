/-
The search for the symbols that derive the empty word finds all of them and no other.

A symbol is `Empties` when all symbols of one of its bodies are. The invariant of the search, `Progress`, holds of
what was found, what lies on the stack, and the productions that are still to be looked at in a visit:
- what is found derives the empty word, and what is stacked is found;
- a production whose body is found has its left side found, or some symbol of its body on the stack, or it is still
  to be looked at.

An empty stack therefore leaves no production undone. Each symbol is found once, so that the symbols taken off the
stack are no more than the productions: the search ends before its steps run out (`mem_find_iff`).
-/
import Mathlib.Data.List.Perm.Subperm
import CfgMembership.Grammar.Nullable

namespace CfgMembership.Nullable

/-- a symbol derives the empty word: all symbols of one of its bodies do -/
inductive Empties (productions : List Production) : Nat → Prop where
  | intro {p : Production} (mem : p ∈ productions) (body : ∀ s ∈ p.rhs, Empties productions s) :
    Empties productions p.lhs

theorem Empties.mem_map_lhs {productions : List Production} {s : Nat} (h : Empties productions s) :
    s ∈ productions.map Production.lhs := by
  cases h with
  | intro mem _ => exact List.mem_map_of_mem mem

/-! ## Operations of the search -/

theorem Search.covers_iff {search : Search} {body : List Nat} :
    search.covers body = true ↔ ∀ s ∈ body, s ∈ search.found := by
  simp [Search.covers]

theorem Search.add_of_mem {search : Search} {s : Nat} (h : s ∈ search.found) : search.add s = search := by
  simp [Search.add, h]

theorem Search.add_of_notMem {search : Search} {s : Nat} (h : s ∉ search.found) :
    search.add s = ⟨s :: search.found, s :: search.stack⟩ := by
  simp [Search.add, h]

theorem Search.mem_found_add {search : Search} {s t : Nat} :
    t ∈ (search.add s).found ↔ t = s ∨ t ∈ search.found := by
  by_cases h : s ∈ search.found
  · rw [Search.add_of_mem h]
    exact ⟨.inr, fun ht => ht.elim (fun hts => hts ▸ h) id⟩
  · rw [Search.add_of_notMem h]
    exact List.mem_cons

/-- looks at one production: its left side is found when its whole body is -/
def Search.look (search : Search) (p : Production) : Search :=
  if search.covers p.rhs then search.add p.lhs else search

/-! ## The invariant -/

/-- the state of a search in which `taken` symbols were taken off the stack, and `todo` is still to be looked at -/
structure Progress (productions todo : List Production) (taken : Nat) (search : Search) : Prop where
  sound : ∀ s ∈ search.found, Empties productions s
  stacked : ∀ s ∈ search.stack, s ∈ search.found
  nodup : search.found.Nodup
  count : search.found.length = search.stack.length + taken
  settled : ∀ p ∈ productions, search.covers p.rhs = true →
    p.lhs ∈ search.found ∨ (∃ s ∈ p.rhs, s ∈ search.stack) ∨ p ∈ todo

variable {productions todo : List Production} {taken : Nat} {search : Search} {p : Production}

/-- no more symbols are found than there are productions -/
theorem Progress.length_found_le (h : Progress productions todo taken search) :
    search.found.length ≤ productions.length := by
  have sub : search.found ⊆ productions.map Production.lhs := fun s hs => (h.sound s hs).mem_map_lhs
  simpa using (h.nodup.subperm sub).length_le

/-- a new symbol goes on the stack, so that the productions it completes have a symbol there -/
theorem Progress.add (h : Progress productions todo taken search) (mem : p ∈ productions)
    (hp : search.covers p.rhs = true) : Progress productions todo taken (search.add p.lhs) := by
  by_cases hfound : p.lhs ∈ search.found
  · rwa [Search.add_of_mem hfound]
  · rw [Search.add_of_notMem hfound]
    rw [Search.covers_iff] at hp
    refine ⟨?_, ?_, List.nodup_cons.2 ⟨hfound, h.nodup⟩, ?_, ?_⟩
    · intro s hs
      rcases List.mem_cons.1 hs with rfl | hs
      · exact .intro mem fun t ht => h.sound t (hp t ht)
      · exact h.sound s hs
    · intro s hs
      rcases List.mem_cons.1 hs with rfl | hs
      · exact List.mem_cons_self
      · exact List.mem_cons_of_mem _ (h.stacked s hs)
    · have := h.count
      simp only [List.length_cons]
      omega
    · intro q hq hcovers
      rw [Search.covers_iff] at hcovers
      by_cases hnew : p.lhs ∈ q.rhs
      · exact .inr (.inl ⟨p.lhs, hnew, List.mem_cons_self⟩)
      · have hold : search.covers q.rhs = true := by
          rw [Search.covers_iff]
          intro s hs
          rcases List.mem_cons.1 (hcovers s hs) with rfl | hs'
          · exact absurd hs hnew
          · exact hs'
        rcases h.settled q hq hold with hl | ⟨s, hs, hst⟩ | htodo
        · exact .inl (List.mem_cons_of_mem _ hl)
        · exact .inr (.inl ⟨s, hs, List.mem_cons_of_mem _ hst⟩)
        · exact .inr (.inr htodo)

/-- looking at one production -/
theorem Progress.look (h : Progress productions (p :: todo) taken search) (mem : p ∈ productions) :
    Progress productions todo taken (search.look p) := by
  -- whichever way it goes, `p` itself is settled afterwards without the help of `todo`
  have done : ∀ {search'}, Progress productions (p :: todo) taken search' →
      (search'.covers p.rhs = true → p.lhs ∈ search'.found) → Progress productions todo taken search' := by
    intro search' h' hp
    refine { h' with settled := fun q hq hcovers => ?_ }
    rcases h'.settled q hq hcovers with hl | hs | hq'
    · exact .inl hl
    · exact .inr (.inl hs)
    · rcases List.mem_cons.1 hq' with rfl | hq'
      · exact .inl (hp hcovers)
      · exact .inr (.inr hq')
  unfold Search.look
  split
  · rename_i hcovers
    exact done (h.add mem hcovers) fun _ => Search.mem_found_add.2 (.inl rfl)
  · rename_i hcovers
    exact done h fun hc => absurd hc hcovers

theorem Progress.lookAll (h : Progress productions todo taken search) (mem : ∀ p ∈ todo, p ∈ productions) :
    Progress productions [] taken (todo.foldl Search.look search) := by
  induction todo generalizing search with
  | nil => exact h
  | cons p todo ih =>
    rw [List.foldl_cons]
    exact ih (h.look (mem p List.mem_cons_self)) fun q hq => mem q (List.mem_cons_of_mem p hq)

/-- a symbol off the stack leaves the productions that hold it to be looked at, in whatever order -/
theorem Progress.visit {symbol : Nat} {stack : List Nat} {uses : List Production}
    (h : Progress productions [] taken search) (top : search.stack = symbol :: stack)
    (same : ∀ p, p ∈ uses ↔ p ∈ productions ∧ symbol ∈ p.rhs) :
    Progress productions [] (taken + 1) (uses.foldl Search.look { search with stack }) := by
  refine Progress.lookAll ⟨h.sound, ?_, h.nodup, ?_, ?_⟩ fun p hp => ((same p).1 hp).1
  · intro t ht
    exact h.stacked t (by rw [top]; exact List.mem_cons_of_mem symbol ht)
  · have := h.count
    simp only [top, List.length_cons] at this
    simp only
    omega
  · intro p hp hcovers
    rcases h.settled p hp hcovers with hl | ⟨t, ht, hts⟩ | hnil
    · exact .inl hl
    · rw [top] at hts
      rcases List.mem_cons.1 hts with rfl | hts
      · exact .inr (.inr ((same p).2 ⟨hp, ht⟩))
      · exact .inr (.inl ⟨t, ht, hts⟩)
    · simp at hnil

theorem mem_uses {symbol : Nat} : p ∈ productions.filter (·.rhs.contains symbol) ↔ p ∈ productions ∧ symbol ∈ p.rhs := by
  simp

theorem step?_eq_some_iff {next : Search} : step? productions search = some next ↔
    ∃ symbol stack, search.stack = symbol :: stack ∧ visit productions symbol { search with stack } = next := by
  unfold step?
  split
  · rename_i hstack
    simp [hstack]
  · rename_i symbol stack hstack
    simp [hstack]

theorem step?_eq_none_iff : step? productions search = none ↔ search.stack = [] := by
  unfold step?
  split <;> simp_all

theorem Progress.step {next : Search} (h : Progress productions [] taken search)
    (hstep : step? productions search = some next) : Progress productions [] (taken + 1) next := by
  obtain ⟨symbol, stack, top, rfl⟩ := step?_eq_some_iff.1 hstep
  exact h.visit top fun _ => mem_uses

/-! ## The first state -/

/-- before the first symbol is taken off the stack, what is found is what is stacked: the left sides of the empty
productions -/
theorem start_fold (todo : List Production) (search : Search) (hst : search.stack = search.found)
    (hnd : search.found.Nodup) :
    let last := todo.foldl (fun search p => if p.isEpsilon then search.add p.lhs else search) search
    last.stack = last.found ∧ last.found.Nodup ∧
      ∀ s, s ∈ last.found ↔ s ∈ search.found ∨ ∃ p ∈ todo, p.rhs = [] ∧ p.lhs = s := by
  induction todo generalizing search with
  | nil => simp [hst, hnd]
  | cons p todo ih =>
    simp only [List.foldl_cons]
    by_cases hp : p.rhs = []
    · rw [if_pos (by simp [Production.isEpsilon, hp])]
      have hadd : (search.add p.lhs).stack = (search.add p.lhs).found ∧ (search.add p.lhs).found.Nodup := by
        by_cases hfound : p.lhs ∈ search.found
        · rw [Search.add_of_mem hfound]
          exact ⟨hst, hnd⟩
        · rw [Search.add_of_notMem hfound]
          exact ⟨by simp [hst], List.nodup_cons.2 ⟨hfound, hnd⟩⟩
      obtain ⟨h1, h2, h3⟩ := ih (search.add p.lhs) hadd.1 hadd.2
      refine ⟨h1, h2, fun s => ?_⟩
      rw [h3, Search.mem_found_add]
      simp [hp, eq_comm, or_assoc, or_left_comm]
    · rw [if_neg (by simp [Production.isEpsilon, hp])]
      obtain ⟨h1, h2, h3⟩ := ih search hst hnd
      refine ⟨h1, h2, fun s => ?_⟩
      rw [h3]
      simp [hp]

theorem progress_start (productions : List Production) : Progress productions [] 0 (start productions) := by
  obtain ⟨hst, hnd, hfound⟩ := start_fold productions ⟨[], []⟩ rfl List.nodup_nil
  refine ⟨?_, ?_, hnd, ?_, ?_⟩
  · intro s hs
    obtain hs | ⟨p, hp, hrhs, rfl⟩ := (hfound s).1 hs
    · simp at hs
    · exact .intro hp (by simp [hrhs])
  · intro s hs
    exact hst ▸ hs
  · exact congrArg List.length hst.symm
  · intro p hp hcovers
    cases hrhs : p.rhs with
    | nil => exact .inl ((hfound _).2 (.inr ⟨p, hp, hrhs, rfl⟩))
    | cons s body =>
      have hs : s ∈ (start productions).found := Search.covers_iff.1 hcovers s (by simp [hrhs])
      refine .inr (.inl ⟨s, List.mem_cons_self, ?_⟩)
      exact hst.symm ▸ hs

/-! ## The whole search -/

/-- with steps for all productions the stack runs empty -/
theorem Progress.run {fuel : Nat} (h : Progress productions [] taken search)
    (hfuel : productions.length ≤ taken + fuel) :
    (∃ taken', Progress productions [] taken' (run productions fuel search)) ∧
      (run productions fuel search).stack = [] := by
  induction fuel generalizing taken search with
  | zero =>
    refine ⟨⟨taken, h⟩, List.eq_nil_of_length_eq_zero ?_⟩
    have := h.count
    have := h.length_found_le
    simp only [Nullable.run]
    omega
  | succ fuel ih =>
    cases hstep : step? productions search with
    | none =>
      have hrun : Nullable.run productions (fuel + 1) search = search := by simp [Nullable.run, hstep]
      rw [hrun]
      exact ⟨⟨taken, h⟩, step?_eq_none_iff.1 hstep⟩
    | some next =>
      have hrun : Nullable.run productions (fuel + 1) search = Nullable.run productions fuel next := by
        simp [Nullable.run, hstep]
      rw [hrun]
      exact ih (h.step hstep) (by omega)

/-- once the stack is empty, no production is left undone -/
theorem Progress.mem_found_iff (h : Progress productions [] taken search) (hstack : search.stack = []) {s : Nat} :
    s ∈ search.found ↔ Empties productions s := by
  refine ⟨h.sound s, fun hs => ?_⟩
  induction hs with
  | intro mem _ ih =>
    rcases h.settled _ mem (Search.covers_iff.2 ih) with hl | ⟨t, _, ht⟩ | hnil
    · exact hl
    · simp [hstack] at ht
    · simp at hnil

/-- **The search is exact**: it finds the symbols that derive the empty word. -/
theorem mem_find_iff {s : Nat} : s ∈ find productions ↔ Empties productions s := by
  have henough : productions.length ≤ 0 + productions.length := Nat.le_add_left _ 0
  obtain ⟨⟨taken, h⟩, hstack⟩ := (progress_start productions).run henough
  exact h.mem_found_iff hstack

end CfgMembership.Nullable
