/-
Which symbols a grammar marks as deriving the empty word.

`Nullable.Reached` lets the search for them go its way in any order: the productions may come in whatever order and as
often as they like, both before the first visit and at each visit. Whatever the order, no symbol is put on the stack
twice, there are no more visits than productions, and what is found in the end is the same (`Reached.mem_found_iff`).
`isNullable_exact` is the outcome for grammars: a symbol is marked just when it is a non-terminal that derives the
empty word.
-/
import CfgMembership.Proofs.Grammar.Lawful

namespace CfgMembership

namespace Nullable

variable {productions : List Production} {taken : List Nat} {search : Search}

/-! ## Searches in any order -/

/-- the states of a search, with the symbols that were taken off the stack, the latest first. A visit looks at the
productions that hold the symbol; one that holds it several times may be looked at several times. -/
inductive Reached (productions : List Production) : List Nat → Search → Prop where
  | start {order : List Production} (same : ∀ p, p ∈ order ↔ p ∈ productions) : Reached productions [] (start order)
  | visit {taken stack : List Nat} {search : Search} {symbol : Nat} {uses : List Production}
    (before : Reached productions taken search) (top : search.stack = symbol :: stack)
    (same : ∀ p, p ∈ uses ↔ p ∈ productions ∧ symbol ∈ p.rhs) :
    Reached productions (symbol :: taken) (uses.foldl Search.look { search with stack })

theorem Empties.of_same {order : List Production} (same : ∀ p, p ∈ order ↔ p ∈ productions) {s : Nat}
    (h : Empties order s) : Empties productions s := by
  induction h with
  | intro mem _ ih => exact .intro ((same _).1 mem) ih

theorem Progress.of_same {order : List Production} {taken : Nat} (same : ∀ p, p ∈ order ↔ p ∈ productions)
    (h : Progress order [] taken search) : Progress productions [] taken search where
  sound s hs := (h.sound s hs).of_same same
  stacked := h.stacked
  nodup := h.nodup
  count := h.count
  settled p hp hcovers := h.settled p ((same p).2 hp) hcovers

theorem Reached.progress (h : Reached productions taken search) : Progress productions [] taken.length search := by
  induction h with
  | start same => exact (progress_start _).of_same same
  | visit _ top same ih => exact ih.visit top same

/-- there are no more visits than productions -/
theorem Reached.length_le (h : Reached productions taken search) : taken.length ≤ productions.length := by
  have := h.progress.count
  have := h.progress.length_found_le
  omega

/-! ## What is put on the stack -/

/-- what has been on the stack, whether taken off or not, is what has been found -/
def Tracks (taken : List Nat) (search : Search) : Prop := (taken ++ search.stack).Perm search.found

theorem Tracks.look (h : Tracks taken search) (p : Production) : Tracks taken (search.look p) := by
  unfold Search.look
  split
  · by_cases hfound : p.lhs ∈ search.found
    · rwa [Search.add_of_mem hfound]
    · rw [Search.add_of_notMem hfound]
      exact List.perm_middle.trans (List.Perm.cons p.lhs h)
  · exact h

theorem Tracks.lookAll (h : Tracks taken search) (uses : List Production) :
    Tracks taken (uses.foldl Search.look search) := by
  induction uses generalizing search with
  | nil => exact h
  | cons p uses ih => exact ih (h.look p)

theorem Reached.tracks (h : Reached productions taken search) : Tracks taken search := by
  induction h with
  | @start order _ =>
    have hstack : (Nullable.start order).stack = (Nullable.start order).found :=
      (start_fold order ⟨[], []⟩ rfl List.nodup_nil).1
    simp [Tracks, hstack]
  | @visit taken stack search symbol uses _ top _ ih =>
    refine Tracks.lookAll ?_ uses
    unfold Tracks at ih ⊢
    rw [top] at ih
    exact List.perm_middle.symm.trans ih

/-- no symbol is put on the stack twice: those taken off and those still there are different from one another -/
theorem Reached.nodup (h : Reached productions taken search) : (taken ++ search.stack).Nodup :=
  h.tracks.nodup_iff.2 h.progress.nodup

/-! ## The end of a search -/

theorem Reached.mem_found_iff (h : Reached productions taken search) (hstack : search.stack = []) {s : Nat} :
    s ∈ search.found ↔ Empties productions s :=
  h.progress.mem_found_iff hstack

/-- the steps of the search proper are visits -/
theorem Reached.run (h : Reached productions taken search) (fuel : Nat) :
    ∃ more, Reached productions (more ++ taken) (Nullable.run productions fuel search) := by
  induction fuel generalizing taken search with
  | zero => exact ⟨[], h⟩
  | succ fuel ih =>
    cases hstep : step? productions search with
    | none =>
      refine ⟨[], ?_⟩
      simpa [Nullable.run, hstep] using h
    | some next =>
      obtain ⟨symbol, stack, top, rfl⟩ := step?_eq_some_iff.1 hstep
      obtain ⟨more, hmore⟩ := ih (h.visit top fun _ => mem_uses)
      refine ⟨more ++ [symbol], ?_⟩
      rw [List.append_assoc, Nullable.run, hstep]
      exact hmore

/-- wherever a search has come to, it can be brought to its end -/
theorem Reached.exists_end (h : Reached productions taken search) :
    ∃ more last, Reached productions (more ++ taken) last ∧ last.stack = [] := by
  obtain ⟨more, hmore⟩ := h.run productions.length
  exact ⟨more, _, hmore, (h.progress.run (Nat.le_add_left _ _)).2⟩

theorem mem_find_of_same {order : List Production} (same : ∀ p, p ∈ order ↔ p ∈ productions) {s : Nat} :
    s ∈ find order ↔ Empties productions s := by
  rw [mem_find_iff]
  exact ⟨.of_same same, .of_same fun p => (same p).symm⟩

end Nullable

/-! ## The symbols marked -/

namespace Grammar

variable {σ : Type} [BEq σ] [Hashable σ]

def allProductions (g : Grammar σ) : List Production := g.rules.toList.flatten

variable {g : Grammar σ}

theorem mem_allProductions : ∀ {p : Production}, p ∈ g.allProductions ↔ ∃ lhs, p ∈ g.productionsOf lhs := by
  intro p
  unfold allProductions productionsOf
  rw [List.mem_flatten]
  constructor
  · rintro ⟨ps, hps, hp⟩
    obtain ⟨lhs, hlhs⟩ := List.getElem?_of_mem hps
    refine ⟨lhs, ?_⟩
    rw [← Array.getElem?_toList, hlhs]
    exact hp
  · rintro ⟨lhs, hp⟩
    cases hlhs : g.rules[lhs]? with
    | none => simp [hlhs] at hp
    | some ps =>
      rw [hlhs] at hp
      exact ⟨ps, Array.mem_toList_iff.2 (Array.mem_of_getElem? hlhs), hp⟩

theorem Lawful.mem_productionsOf_iff (hg : g.Lawful) {lhs : Nat} {p : Production} :
    p ∈ g.productionsOf lhs ↔ p ∈ g.allProductions ∧ p.lhs = lhs := by
  constructor
  · intro hp
    exact ⟨mem_allProductions.2 ⟨lhs, hp⟩, hg.lhs_eq hp⟩
  · rintro ⟨hp, rfl⟩
    obtain ⟨lhs, hlhs⟩ := mem_allProductions.1 hp
    exact hg.mem_productionsOf_lhs hlhs

/-- a symbol is marked just when the productions empty it out -/
theorem Lawful.isNullable_iff_empties (hg : g.Lawful) {s : Nat} :
    g.isNullable s = true ↔ Nullable.Empties g.allProductions s := by
  rw [hg.nullable, empties_iff_derives fun _ _ => hg.mem_productionsOf_iff]

theorem Lawful.kind_of_derives_nil (hg : g.Lawful) {s : Nat} (h : g.Derives [s] []) : g.kind s = .nonTerminal := by
  cases h with
  | step first _ =>
    generalize hform : [s] = form at first
    cases first with
    | replace before after mem =>
      rcases List.append_eq_singleton_iff.1 hform.symm with ⟨-, hcons⟩ | ⟨-, hnil⟩
      · cases hcons
        exact hg.kind_lhs mem
      · cases hnil

variable [Written σ] [EquivBEq σ] [LawfulHashable σ] {ds : List (Declaration σ)}

/-- **Which symbols are marked as deriving the empty word.** Just the non-terminals, the augmented start symbol among
them, that do. The search for them marks the same symbols in whatever order the productions come; in every order it
puts no symbol on the stack twice, makes no more visits than there are productions, can be brought to its end, and has
then found the symbols marked. -/
theorem isNullable_exact (h : ofDeclarations ds = .ok g) :
    (∀ id, g.isNullable id = true ↔ g.kind id = .nonTerminal ∧ g.Derives [id] []) ∧
    (∀ order, (∀ p, p ∈ order ↔ p ∈ g.allProductions) → ∀ id, id ∈ Nullable.find order ↔ g.isNullable id = true) ∧
    ∀ taken search, Nullable.Reached g.allProductions taken search →
      (taken ++ search.stack).Nodup ∧
      taken.length ≤ g.allProductions.length ∧
      (∃ more last, Nullable.Reached g.allProductions (more ++ taken) last ∧ last.stack = []) ∧
      (search.stack = [] → ∀ id, id ∈ search.found ↔ g.isNullable id = true) := by
  have hg := lawful_of_ofDeclarations h
  refine ⟨fun id => ?_, fun order same id => ?_, fun taken search hreached => ?_⟩
  · rw [hg.nullable]
    exact ⟨fun hd => ⟨hg.kind_of_derives_nil hd, hd⟩, fun hd => hd.2⟩
  · rw [Nullable.mem_find_of_same same, hg.isNullable_iff_empties]
  · refine ⟨hreached.nodup, hreached.length_le, hreached.exists_end, fun hstack id => ?_⟩
    rw [hreached.mem_found_iff hstack, hg.isNullable_iff_empties]

/-- in the sample `A` is marked, since it gives `S` and `S` the empty word; a search that takes the productions from the
back finds it too, and so does one that was brought to its end -/
theorem isNullable_sample : ofDeclarations sampleDeclarations = .ok sample ∧ sample.isNullable 1 = true ∧
    1 ∈ Nullable.find sample.allProductions.reverse ∧
    ∃ taken search, Nullable.Reached sample.allProductions taken search ∧ search.stack = [] ∧ 1 ∈ search.found := by
  obtain ⟨hmarked, horder, hsearch⟩ := isNullable_exact ofDeclarations_sample
  have hempty : sample.Derives [1] [] :=
    .step (.replace [] [] (mem_productionsOf_sample (p := ⟨1, [0]⟩) (by simp)))
      (.step (.replace [] [] (mem_productionsOf_sample (p := ⟨0, []⟩) (by simp))) (.refl _))
  have hkind : sample.kind 1 = .nonTerminal := (lawful_of_ofDeclarations ofDeclarations_sample).kind_of_derives_nil hempty
  have hmark : sample.isNullable 1 = true := (hmarked 1).2 ⟨hkind, hempty⟩
  obtain ⟨-, -, ⟨more, last, hlast, hstack⟩, -⟩ := hsearch [] _ (.start fun _ => Iff.rfl)
  have hfound := (hsearch _ last hlast).2.2.2 hstack 1
  exact ⟨ofDeclarations_sample, hmark, (horder _ (fun _ => List.mem_reverse) 1).2 hmark, _, last, hlast, hstack,
    hfound.2 hmark⟩

end Grammar

end CfgMembership
