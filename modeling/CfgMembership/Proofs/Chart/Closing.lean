/-
Closing a column.

`Follows` says in which ways an item calls for another in its column, and `mem_consequences_iff` that working off an
item adds just these. `Draining` is the invariant of the work: what follows from the items that were worked off, as
far as the columns before decide it, is in the column. The items of a column differ in production, dot or origin, so
that they are no more than the bound on the steps (`size_le_bound`) and the worklist is empty before the steps run
out. `close_settled` states what a closed column is, and `close_forall` that a property which passes to what follows
holds of all its items.

An item that ends where it began looks into the column while it still grows. `Settled` asks nothing of what it finds
there.
-/
import Mathlib.Data.List.Perm.Subperm
import CfgMembership.Proofs.Chart.Column
import CfgMembership.Proofs.Chart.Item

namespace CfgMembership

variable {σ : Type} [BEq σ] [Hashable σ] {g : Grammar σ}

/-! ## The number of items -/

/-- every item of a production with a dot and an origin up to a position -/
def Item.candidates (g : Grammar σ) (i : Nat) : List Item :=
  g.rules.toList.flatMap fun ps => ps.flatMap fun p => (List.range (p.rhs.length + 1)).flatMap fun dot =>
    (List.range (i + 1)).map fun origin => ⟨p.lhs, origin, dot, p.rhs⟩

theorem Item.Within.mem_candidates {i : Nat} {it : Item} (h : it.Within g i) : it ∈ Item.candidates g i := by
  have hp := h.production
  unfold Grammar.productionsOf at hp
  cases hps : g.rules[it.head]? with
  | none => simp [hps] at hp
  | some ps =>
    rw [hps, Option.getD_some] at hp
    refine List.mem_flatMap.2 ⟨ps, Array.mem_def.1 (Array.mem_of_getElem? hps), ?_⟩
    refine List.mem_flatMap.2 ⟨_, hp, List.mem_flatMap.2 ⟨it.dot, ?_, ?_⟩⟩
    · exact List.mem_range.2 (Nat.lt_succ_of_le h.dot_le)
    · exact List.mem_map.2 ⟨it.origin, List.mem_range.2 (Nat.lt_succ_of_le h.origin_le), rfl⟩

theorem Grammar.foldl_dots (ps : List Production) (total i : Nat) :
    total * i + (ps.flatMap fun p => (List.range (p.rhs.length + 1)).flatMap fun dot =>
      (List.range i).map fun origin => (⟨p.lhs, origin, dot, p.rhs⟩ : Item)).length =
    ps.foldl (fun total p => total + (p.rhs.length + 1)) total * i := by
  induction ps generalizing total with
  | nil => simp
  | cons p ps ih =>
    rw [List.foldl_cons, ← ih, List.flatMap_cons, List.length_append, Nat.add_mul, Nat.add_assoc]
    simp [List.length_flatMap]

theorem Item.length_candidates (g : Grammar σ) (i : Nat) : (Item.candidates g i).length = g.dottedCount * (i + 1) := by
  have (rules : List (List Production)) (total : Nat) :
      total * (i + 1) + (rules.flatMap fun ps => ps.flatMap fun p => (List.range (p.rhs.length + 1)).flatMap fun dot =>
        (List.range (i + 1)).map fun origin => (⟨p.lhs, origin, dot, p.rhs⟩ : Item)).length =
      rules.foldl (fun total ps => ps.foldl (fun total p => total + (p.rhs.length + 1)) total) total * (i + 1) := by
    induction rules generalizing total with
    | nil => simp
    | cons ps rules ih =>
      rw [List.foldl_cons, ← ih, ← Grammar.foldl_dots, List.flatMap_cons, List.length_append, Nat.add_assoc]
  have := this g.rules.toList 0
  rw [Nat.zero_mul, Nat.zero_add] at this
  rw [Item.candidates, this, Grammar.dottedCount, ← Array.foldl_toList]

namespace Column

/-- the items of a column are no more than its steps -/
theorem size_le_bound {c : Column} {i : Nat} (hc : Coherent g c) (h : ∀ it ∈ c.items, it.Within g i) :
    c.items.size ≤ g.dottedCount * (i + 1) := by
  rw [← Item.length_candidates, ← Array.length_toList]
  exact (hc.nodup.subperm fun it hit => (h it (Array.mem_def.2 hit)).mem_candidates).length_le

/-! ## What follows from an item -/

/-- the items that working off an item adds to the column after `earlier` -/
inductive Follows (g : Grammar σ) (earlier : Array Column) (c : Column) (it : Item) : Item → Prop where
  | predict {s : Nat} {p : Production} (next : it.expected g = .nonTerminal s) (mem : p ∈ g.productionsOf s) :
    Follows g earlier c it (.ofProduction p earlier.size)
  | skip {s : Nat} (next : it.expected g = .nonTerminal s) (nullable : g.isNullable s = true) :
    Follows g earlier c it it.advance
  | complete {waiting : Item} (ended : it.expected g = .nothing)
    (mem : waiting ∈ ((earlier[it.origin]?).getD c).items) (next : waiting.expected g = .nonTerminal it.head) :
    Follows g earlier c it waiting.advance

theorem mem_consequences_iff {earlier : Array Column} {c : Column} {it it' : Item}
    (hearlier : ∀ d ∈ earlier, Coherent g d) (hc : Coherent g c) :
    it' ∈ consequences g earlier c it ↔ Follows g earlier c it it' := by
  have hd : Coherent g ((earlier[it.origin]?).getD c) := by
    cases h : earlier[it.origin]? with
    | none => exact hc
    | some d => exact hearlier d (Array.mem_of_getElem? h)
  unfold consequences
  constructor
  · intro h
    split at h
    · rename_i hend
      obtain ⟨waiting, hwaiting, rfl⟩ := List.mem_map.1 h
      obtain ⟨mem, next⟩ := hd.mem_waitingFor.1 hwaiting
      exact .complete hend mem next
    · rename_i s hnext
      rcases List.mem_append.1 h with h | h
      · obtain ⟨p, hp, rfl⟩ := List.mem_map.1 h
        exact .predict hnext hp
      · split at h
        · rename_i hnull
          rw [List.mem_singleton.1 h]
          exact .skip hnext hnull
        · simp at h
    · simp at h
  · intro h
    cases h with
    | predict next mem =>
      simp only [next]
      exact List.mem_append_left _ (List.mem_map_of_mem mem)
    | skip next nullable =>
      simp only [next, predicted, nullable, ↓reduceIte]
      exact List.mem_append_right _ List.mem_cons_self
    | complete ended mem next =>
      simp only [ended]
      exact List.mem_map_of_mem (hd.mem_waitingFor.2 ⟨mem, next⟩)

/-- what follows by the columns before this one follows in whatever state this one is -/
theorem Follows.of_empty {earlier : Array Column} {c : Column} {it it' : Item} (h : Follows g earlier empty it it') :
    Follows g earlier c it it' := by
  cases h with
  | predict next mem => exact .predict next mem
  | skip next nullable => exact .skip next nullable
  | complete ended mem next =>
    refine .complete ended ?_ next
    cases horigin : earlier[it.origin]? with
    | none => simp [horigin, empty] at mem
    | some d => simpa [horigin] using mem

/-! ## Columns that are closed -/

/-- a column after `earlier` with all that follows from its items by the columns before -/
structure Settled (g : Grammar σ) (earlier : Array Column) (c : Column) : Prop where
  coherent : Coherent g c
  within : ∀ it ∈ c.items, it.Within g earlier.size
  closed : ∀ it ∈ c.items, ∀ it', Follows g earlier empty it it' → it' ∈ c.items

/-- each column is closed after those before it -/
def AllSettled (g : Grammar σ) (columns : Array Column) : Prop :=
  ∀ j d, columns[j]? = some d → Settled g (columns.extract 0 j) d

variable {earlier : Array Column} {c : Column} {it it' : Item}

theorem AllSettled.coherent (h : AllSettled g earlier) : ∀ d ∈ earlier, Coherent g d := by
  intro d hd
  obtain ⟨j, hj⟩ := Array.getElem?_of_mem hd
  exact (h j d hj).coherent

theorem AllSettled.within (h : AllSettled g earlier) {j : Nat} {d : Column} (hj : earlier[j]? = some d) :
    ∀ it ∈ d.items, it.Within g j := by
  have := (h j d hj).within
  rwa [Array.size_extract, Nat.min_eq_left (Nat.le_of_lt (Array.getElem?_eq_some_iff.1 hj).1), Nat.sub_zero] at this

/-- what follows from an item of the grammar is one -/
theorem Follows.within (hg : g.Lawful) (hearlier : AllSettled g earlier)
    (hc : ∀ it ∈ c.items, it.Within g earlier.size) (hit : it ∈ c.items) (h : Follows g earlier c it it') :
    it'.Within g earlier.size := by
  cases h with
  | predict next mem => exact .ofProduction hg mem _
  | skip next nullable => exact (hc it hit).advance (Item.expected_eq_nonTerminal_iff.1 next).1 (Nat.le_refl _)
  | complete ended mem next =>
    have hnext := (Item.expected_eq_nonTerminal_iff.1 next).1
    cases horigin : earlier[it.origin]? with
    | none =>
      rw [horigin] at mem
      exact (hc _ mem).advance hnext (Nat.le_refl _)
    | some d =>
      rw [horigin] at mem
      exact (hearlier.within horigin _ mem).advance hnext (hc it hit).origin_le

/-! ## Working off the worklist -/

/-- the column at work: what follows from the items taken off the worklist is there -/
structure Draining (g : Grammar σ) (earlier : Array Column) (c : Column) : Prop extends Open g c where
  within : ∀ it ∈ c.items, it.Within g earlier.size
  worked : ∀ n ∈ c.worklist.indices.toList.take c.worklist.taken, ∀ it, c.items[n]? = some it →
    ∀ it', Follows g earlier empty it it' → it' ∈ c.items

theorem take?_eq_some_iff {w w' : Worklist} {index : Nat} :
    w.take? = some (index, w') ↔ w.indices[w.taken]? = some index ∧ w' = { w with taken := w.taken + 1 } := by
  simp only [Worklist.take?, Option.map_eq_some_iff, Prod.mk.injEq]
  constructor
  · rintro ⟨n, hn, rfl, rfl⟩
    exact ⟨hn, rfl⟩
  · rintro ⟨hn, rfl⟩
    exact ⟨index, hn, rfl, rfl⟩

/-- taking an index leaves the column as it is otherwise -/
theorem Open.take (h : Open g c) {index : Nat} {w : Worklist} (htake : c.worklist.take? = some (index, w)) :
    Open g { c with worklist := w } ∧ ∃ it, c.items[index]? = some it := by
  obtain ⟨hindex, rfl⟩ := take?_eq_some_iff.1 htake
  refine ⟨⟨⟨h.nodup, h.seen, h.waiting⟩, h.indices, (Array.getElem?_eq_some_iff.1 hindex).1, h.unsealed⟩, ?_⟩
  have hmem : index ∈ positions g c.items (· != .terminal) := by
    rw [← h.indices, ← Array.mem_def]
    exact Array.mem_of_getElem? hindex
  obtain ⟨it, hit, -⟩ := mem_positions.1 hmem
  exact ⟨it, hit⟩

/-- working off one index keeps the invariant -/
theorem Draining.next (hg : g.Lawful) (hearlier : AllSettled g earlier) (h : Draining g earlier c) {index : Nat}
    {w : Worklist} (htake : c.worklist.take? = some (index, w)) :
    Draining g earlier ({ c with worklist := w }.workOff g earlier index) ∧
      ({ c with worklist := w }.workOff g earlier index).worklist.taken = c.worklist.taken + 1 := by
  obtain ⟨hopen, it, hit⟩ := h.toOpen.take htake
  obtain ⟨hindex, rfl⟩ := take?_eq_some_iff.1 htake
  set d : Column := { c with worklist := { c.worklist with taken := c.worklist.taken + 1 } }
  have hwork : d.workOff g earlier index = d.insertAll g (consequences g earlier d it) := by
    simp [workOff, d, hit]
  have hgrows : Grows d (d.workOff g earlier index) := hwork ▸ grows_insertAll g d _
  have hmem {it'} : it' ∈ (d.workOff g earlier index).items ↔ it' ∈ c.items ∨ Follows g earlier d it it' := by
    rw [hwork, hopen.mem_insertAll, mem_consequences_iff hearlier.coherent hopen.toCoherent]
  refine ⟨{ hwork ▸ hopen.insertAll _ with within := ?_, worked := ?_ }, hgrows.taken⟩
  · intro it' hit'
    rcases hmem.1 hit' with hold | hnew
    · exact h.within it' hold
    · exact Follows.within (c := d) hg hearlier h.within (Array.mem_of_getElem? hit) hnew
  · intro n hn it' hit' it'' hfollows
    have htaken : d.worklist.indices.toList.take d.worklist.taken =
        c.worklist.indices.toList.take c.worklist.taken ++ [index] := by
      rw [List.take_add_one]
      simp [d, hindex]
    rw [hgrows.take_indices hopen.taken_le, htaken] at hn
    rcases List.mem_append.1 hn with hn | hn
    · obtain ⟨_, hn', -⟩ := mem_positions.1 (h.indices ▸ List.mem_of_mem_take hn)
      rw [hgrows.getElem?_eq (Array.getElem?_eq_some_iff.1 hn').1] at hit'
      exact hmem.2 (.inl (h.worked n hn it' hit' it'' hfollows))
    · rw [List.mem_singleton.1 hn, hgrows.getElem?_eq (Array.getElem?_eq_some_iff.1 hit).1] at hit'
      cases hit.symm.trans hit'
      exact hmem.2 (.inr hfollows.of_empty)

/-- the work ends with the worklist empty, since each index is taken once -/
theorem Draining.drain (hg : g.Lawful) (hearlier : AllSettled g earlier) {fuel : Nat} (h : Draining g earlier c)
    (hfuel : g.dottedCount * (earlier.size + 1) ≤ c.worklist.taken + fuel) :
    Draining g earlier (c.drain g earlier fuel) ∧
      (c.drain g earlier fuel).worklist.indices.size ≤ (c.drain g earlier fuel).worklist.taken := by
  induction fuel generalizing c with
  | zero =>
    refine ⟨h, ?_⟩
    have hsize := size_le_bound h.toCoherent h.within
    have hindices : c.worklist.indices.size ≤ c.items.size := by
      rw [← Array.length_toList, h.indices]
      exact Nat.le_trans (List.length_filter_le _ _) (Nat.le_of_eq List.length_range)
    simp only [Column.drain]
    omega
  | succ fuel ih =>
    cases htake : c.worklist.take? with
    | none =>
      have hdrain : c.drain g earlier (fuel + 1) = c := by simp [Column.drain, htake]
      rw [hdrain]
      simp only [Worklist.take?, Option.map_eq_none_iff, Array.getElem?_eq_none_iff] at htake
      exact ⟨h, htake⟩
    | some taken =>
      obtain ⟨index, w⟩ := taken
      have hdrain : c.drain g earlier (fuel + 1) =
          ({ c with worklist := w }.workOff g earlier index).drain g earlier fuel := by
        simp [Column.drain, htake]
      obtain ⟨hnext, htaken⟩ := h.next hg hearlier htake
      rw [hdrain]
      exact ih hnext (by omega)

/-- a column whose worklist is empty is closed -/
theorem Draining.settled (h : Draining g earlier c) (hdone : c.worklist.indices.size ≤ c.worklist.taken) :
    Settled g earlier c where
  coherent := h.toCoherent
  within := h.within
  closed := by
    intro it hit it' hfollows
    obtain ⟨n, hn⟩ := Array.getElem?_of_mem hit
    refine h.worked n ?_ it hn it' hfollows
    rw [List.take_of_length_le (by simpa using hdone), h.indices, mem_positions]
    refine ⟨it, hn, ?_⟩
    cases hfollows with
    | predict next => simp [next]
    | skip next => simp [next]
    | complete ended => simp [ended]

/-- a column of items is at work, with nothing worked off -/
theorem draining_ofList {its : List Item} (hits : ∀ it ∈ its, it.Within g earlier.size) :
    Draining g earlier (ofList g its) where
  toOpen := open_ofList its
  within it hit := hits it (mem_ofList.1 hit)
  worked := by simp [taken_ofList]

/-- **A closed column holds all that follows from its items**, by the columns before it. -/
theorem close_settled (hg : g.Lawful) (hearlier : AllSettled g earlier) (its : List Item)
    (hits : ∀ it ∈ its, it.Within g earlier.size) : Settled g earlier ((ofList g its).close g earlier) := by
  have henough : g.dottedCount * (earlier.size + 1) ≤
      (ofList g its).worklist.taken + g.dottedCount * (earlier.size + 1) := Nat.le_add_left _ _
  obtain ⟨hdrain, hdone⟩ := (draining_ofList hits).drain hg hearlier henough
  have hsettled := hdrain.settled hdone
  exact ⟨⟨hsettled.coherent.nodup, hsettled.coherent.seen, hsettled.coherent.waiting⟩, hsettled.within, hsettled.closed⟩

/-! ## Properties of all items of a closed column -/

/-- what holds of a column and is kept by working off an index holds after the work -/
theorem drain_induction {P : Column → Prop}
    (step : ∀ c index w, P c → c.worklist.take? = some (index, w) →
      P ({ c with worklist := w }.workOff g earlier index))
    (fuel : Nat) (h : P c) : P (c.drain g earlier fuel) := by
  induction fuel generalizing c with
  | zero => exact h
  | succ fuel ih =>
    simp only [Column.drain]
    split
    · exact h
    · rename_i index w htake
      exact ih (step c index w h htake)

theorem grows_workOff (g : Grammar σ) (earlier : Array Column) (c : Column) (index : Nat) :
    Grows c (c.workOff g earlier index) := by
  unfold workOff
  split
  · exact Grows.refl c
  · exact grows_insertAll g c _

/-- the items that a column starts from stay -/
theorem mem_close_of_mem {its : List Item} (h : it ∈ its) : it ∈ ((ofList g its).close g earlier).items := by
  have hkeep : it ∈ ((ofList g its).drain g earlier (g.dottedCount * (earlier.size + 1))).items.toList :=
    drain_induction (P := fun c => it ∈ c.items.toList)
      (fun c index w hit _ => (grows_workOff g earlier { c with worklist := w } index).items.subset hit) _
      (Array.mem_def.1 (mem_ofList.2 h))
  exact Array.mem_def.2 hkeep

/-- **What passes from items to what follows from them holds of all items of a closed column.** -/
theorem close_forall {Q : Item → Prop} (hearlier : AllSettled g earlier) {its : List Item} (hits : ∀ it ∈ its, Q it)
    (hfollows : ∀ c it it', (∀ it ∈ c.items, Q it) → it ∈ c.items → Follows g earlier c it it' → Q it') :
    ∀ it ∈ ((ofList g its).close g earlier).items, Q it := by
  refine (drain_induction (P := fun c => Coherent g c ∧ ∀ it ∈ c.items, Q it) ?_ _
    ⟨coherent_ofList its, fun it hit => hits it (mem_ofList.1 hit)⟩).2
  rintro c index w ⟨hc, hQ⟩ -
  have hd : Coherent g { c with worklist := w } := ⟨hc.nodup, hc.seen, hc.waiting⟩
  unfold workOff
  split
  · exact ⟨hd, hQ⟩
  · rename_i it hit
    refine ⟨hd.insertAll _, fun it' hit' => ?_⟩
    rcases (hd.mem_insertAll _).1 hit' with hold | hnew
    · exact hQ it' hold
    · have hf := (mem_consequences_iff hearlier.coherent hd).1 hnew
      exact hfollows { c with worklist := w } it it' hQ (Array.mem_of_getElem? hit) hf

end Column

end CfgMembership
