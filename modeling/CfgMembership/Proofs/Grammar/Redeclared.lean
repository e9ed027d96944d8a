/-
Declarations that say the same, and the grammars that they make.

`Declaration.Alike`: two lists of declarations name the same terminals, non-terminals and productions and the same start
symbol in the end, in whatever order and however often. One makes a grammar just when the other does
(`Alike.exists_ofDeclarations_iff`). The two grammars number their symbols differently, and `Grammar.Mirrors` says that
each has what the other has once the numbers are changed; what is derived is then the same (`Mirrors.derives`).
-/
import CfgMembership.Proofs.Grammar.Reflects
import CfgMembership.Proofs.SymbolTable.Renumbering

namespace CfgMembership

variable {σ : Type} [BEq σ]

/-! ## Declarations that say the same -/

namespace Declaration

/-- declarations that say the same of equal symbols, in whatever order and however often -/
structure Alike (ds ds' : List (Declaration σ)) : Prop where
  terminal : ∀ s, Declares ds (.terminal s) ↔ Declares ds' (.terminal s)
  nonTerminal : ∀ s, Declares ds (.nonTerminal s) ↔ Declares ds' (.nonTerminal s)
  production : ∀ lhs rhs, Declares ds (.production lhs rhs) ↔ Declares ds' (.production lhs rhs)
  start : start? ds == start? ds'

variable [EquivBEq σ] {ds ds' : List (Declaration σ)} {s : σ}

theorem Alike.symm (h : Alike ds ds') : Alike ds' ds where
  terminal s := (h.terminal s).symm
  nonTerminal s := (h.nonTerminal s).symm
  production lhs rhs := (h.production lhs rhs).symm
  start := by
    have hstart := h.start
    cases hs : start? ds <;> cases hs' : start? ds' <;> simp_all [BEq.comm]

omit [EquivBEq σ] in
theorem Alike.known (h : Alike ds ds') (hs : Known ds s) : Known ds' s :=
  hs.imp (h.nonTerminal s).1 (h.terminal s).1

omit [EquivBEq σ] in
/-- equal symbols are marked as start symbol in the end -/
theorem Alike.exists_start (h : Alike ds ds') (hs : start? ds = some s) : ∃ s', start? ds' = some s' ∧ s == s' := by
  have hstart := h.start
  rw [hs] at hstart
  cases hs' : start? ds' with
  | none =>
    rw [hs'] at hstart
    cases hstart
  | some s' =>
    rw [hs', Option.some_beq_some] at hstart
    exact ⟨s', rfl, hstart⟩

theorem Alike.exists_production (h : Alike ds ds') {p : σ × List σ} (hp : p ∈ productions ds) :
    ∃ p' ∈ productions ds', p'.1 == p.1 ∧ p'.2 == p.2 := by
  have hdeclares : Declares ds (.production p.1 p.2) := declares_production_iff.2 ⟨p, hp, BEq.rfl, BEq.rfl⟩
  exact declares_production_iff.1 ((h.production p.1 p.2).1 hdeclares)

theorem forall_known_of_beq {form form' : List σ} (hsame : form' == form) (h : ∀ s ∈ form', Known ds s) :
    ∀ s ∈ form, Known ds s := by
  induction form generalizing form' with
  | nil => simp
  | cons s form ih =>
    cases form' with
    | nil => cases hsame
    | cons s' form' =>
      rw [List.cons_beq_cons, Bool.and_eq_true] at hsame
      rw [List.forall_mem_cons] at h ⊢
      refine ⟨?_, ih hsame.2 h.2⟩
      exact h.1.imp (declares_nonTerminal_congr hsame.1).1 (declares_terminal_congr hsame.1).1

theorem Alike.fits (h : Alike ds ds') {p p' : σ × List σ} (hlhs : p'.1 == p.1) (hrhs : p'.2 == p.2)
    (hp' : Fits ds' p') : Fits ds p := by
  refine ⟨(h.nonTerminal p.1).2 ((declares_nonTerminal_congr hlhs).1 hp'.1), fun s hs => ?_⟩
  exact h.symm.known (forall_known_of_beq hrhs hp'.2 s hs)

theorem Alike.exists_ofDeclarations [Hashable σ] [LawfulHashable σ] [Written σ] (h : Alike ds ds')
    (hbuilds : ∃ g, Grammar.ofDeclarations ds = .ok g) : ∃ g, Grammar.ofDeclarations ds' = .ok g := by
  rw [Grammar.exists_ofDeclarations_iff_fits] at hbuilds ⊢
  obtain ⟨⟨s, hs, hkind⟩, hclear, hfits⟩ := hbuilds
  refine ⟨?_, fun s' hs' => ?_, fun p hp => ?_⟩
  · obtain ⟨s', hs', hsame⟩ := h.exists_start hs
    exact ⟨s', hs', (h.nonTerminal s').1 ((declares_nonTerminal_congr hsame).1 hkind)⟩
  · exact hclear s' ⟨(h.terminal s').2 hs'.1, (h.nonTerminal s').2 hs'.2⟩
  · obtain ⟨p', hp', hlhs, hrhs⟩ := h.symm.exists_production hp
    exact h.symm.fits hlhs hrhs (hfits p' hp')

end Declaration

open Declaration

/-! ## Grammars with the same productions -/

def Production.renumber (f : Nat → Nat) (p : Production) : Production := ⟨f p.lhs, p.rhs.map f⟩

namespace Grammar

variable [Hashable σ]

/-- from the numbers of one grammar to those of another -/
def renumber (g g' : Grammar σ) (id : Nat) : Nat := g.table.renumber g'.table id

/-- what one grammar has, the other has under its own numbers -/
structure Mirrors (g g' : Grammar σ) : Prop where
  indexed : g.table.Indexed
  lawful : g.Lawful
  classify_eq : ∀ s, g.classify s = g'.classify s
  shared : ∀ {lhs : Nat} {p : Production}, p ∈ g.productionsOf lhs → ∀ id ∈ p.lhs :: p.rhs,
    g.table.Shared g'.table id
  production : ∀ {lhs : Nat} {p : Production}, p ∈ g.productionsOf lhs →
    p.renumber (g.renumber g') ∈ g'.productionsOf (g.renumber g' lhs)
  start : g.renumber g' g.start = g'.start

variable {g g' : Grammar σ}

@[simp] theorem renumber_augmentedStart (g g' : Grammar σ) : g.renumber g' g.augmentedStart = g'.augmentedStart :=
  SymbolTable.renumber_size g.table g'.table

/-! ## What is derived -/

theorem Mirrors.step (h : g.Mirrors g') {first second : List Nat} (hstep : g.Step first second) :
    g'.Step (first.map (g.renumber g')) (second.map (g.renumber g')) := by
  cases hstep with
  | replace before after mem =>
    simp only [List.map_append, List.map_cons]
    exact .replace _ _ (h.production mem)

theorem Mirrors.derives (h : g.Mirrors g') {first last : List Nat} (hd : g.Derives first last) :
    g'.Derives (first.map (g.renumber g')) (last.map (g.renumber g')) := by
  induction hd with
  | refl => exact .refl _
  | step hstep _ ih => exact .step (h.step hstep) ih

theorem Mirrors.derives_start (h : g.Mirrors g') {last : List Nat} (hd : g.Derives [g.start] last) :
    g'.Derives [g'.start] (last.map (g.renumber g')) := by
  have := h.derives hd
  rwa [List.map_singleton, h.start] at this

theorem Mirrors.viable (h : g.Mirrors g') {front : List Nat} (hv : g.Viable front) :
    g'.Viable (front.map (g.renumber g')) := by
  obtain ⟨after, hd⟩ := hv
  refine ⟨after.map (g.renumber g'), ?_⟩
  rw [← List.map_append]
  exact h.derives_start hd

/-! ## Words -/

theorem Mirrors.terminals (h : g.Mirrors g') {word : List σ} (hw : ∀ s ∈ word, g.classify s = .terminal) :
    ∀ s ∈ word, g'.classify s = .terminal := by
  intro s hs
  rw [← h.classify_eq]
  exact hw s hs

variable [EquivBEq σ] [LawfulHashable σ]

/-- a word of terminals by the numbers of one grammar, and by those of the other -/
theorem Mirrors.map_word (h : g.Mirrors g') {word : List σ} (hw : ∀ s ∈ word, g.classify s = .terminal) :
    (word.filterMap g.table.id?).map (g.renumber g') = word.filterMap g'.table.id? :=
  (encodes_of_terminals hw).map_renumber (encodes_of_terminals (h.terminals hw)) h.indexed

/-! ## Grammars of alike declarations -/

variable {ds ds' : List (Declaration σ)}

omit [EquivBEq σ] [LawfulHashable σ] in
/-- a symbol is of the same kind in both grammars -/
theorem Reflects.classify_eq (h : g.Reflects ds) (h' : g'.Reflects ds') (hsame : Alike ds ds') (s : σ) :
    g.classify s = g'.classify s := by
  cases hkind : g'.classify s with
  | terminal => exact (h.terminal_iff s).2 ((hsame.terminal s).2 ((h'.terminal_iff s).1 hkind))
  | nonTerminal => exact (h.nonTerminal_iff s).2 ((hsame.nonTerminal s).2 ((h'.nonTerminal_iff s).1 hkind))
  | undefined =>
    rw [h.undefined_iff]
    exact mt hsame.known ((h'.undefined_iff s).1 hkind)

namespace Builder

variable {b b' : Builder σ} {start start' : Nat}

theorem Took.shared (h' : b'.Took ds') (hsame : Alike ds ds') {s : σ} {id : Nat} (hs : Known ds s)
    (hid : b.table.id? s = some id) : b.table.Shared b'.table id := by
  rcases hsame.known hs with hs' | hs'
  · obtain ⟨id', hid'⟩ := h'.exists_nonTerminal_id hs'
    exact .symbol hid hid'
  · obtain ⟨id', hid'⟩ := h'.exists_terminal_id hs'
    exact .symbol hid hid'

/-- a production declared in one list is, under other numbers, a production declared in the other -/
theorem Took.renumber_mem (h : b.Took ds) (h' : b'.Took ds') (hsame : Alike ds ds') {p : Production}
    (hp : p ∈ b.productions) : p.renumber (b.table.renumber b'.table) ∈ b'.productions := by
  obtain ⟨declared, hdeclared, hlhs, hrhs⟩ := (exists_of_forall₂ h.records.productions).1 p (Array.mem_def.1 hp)
  obtain ⟨declared', hdeclared', hsameLhs, hsameRhs⟩ := hsame.exists_production hdeclared
  obtain ⟨p', hp', hlhs', hrhs'⟩ := (exists_of_forall₂ h'.records.productions).2 declared' hdeclared'
  have hthereLhs : b'.table.id? declared.1 = some p'.lhs := (SymbolTable.id?_congr hsameLhs).symm.trans hlhs'
  have hthereRhs : b'.table.Encodes declared.2 p'.rhs := (SymbolTable.map_id?_congr hsameRhs).symm.trans hrhs'
  have hrenumbered : p.renumber (b.table.renumber b'.table) = p' := by
    rw [Production.renumber, h.indexed.renumber_eq hlhs hthereLhs, hrhs.map_renumber hthereRhs h.indexed]
  rw [hrenumbered]
  exact Array.mem_def.2 hp'

theorem Took.renumber_start (h : b.Took ds) (h' : b'.Took ds') (hsame : Alike ds ds') (hstart : b.start = some start)
    (hstart' : b'.start = some start') : b.table.renumber b'.table start = start' := by
  obtain ⟨s, hs, hid⟩ := h.records.start_eq_some_iff.1 hstart
  obtain ⟨s', hs', hid'⟩ := h'.records.start_eq_some_iff.1 hstart'
  obtain ⟨s'', hs'', hbeq⟩ := hsame.exists_start hs
  cases hs'.symm.trans hs''
  rw [← SymbolTable.id?_congr hbeq] at hid'
  exact h.indexed.renumber_eq hid hid'

theorem Took.mirrors [Written σ] (h : b.Took ds) (h' : b'.Took ds') (hsame : Alike ds ds')
    (hstart : b.start = some start) (hstart' : b'.start = some start') (hfault : b.fault? start = none)
    (hfault' : b'.fault? start' = none) : (b.grammar start).Mirrors (b'.grammar start') := by
  have hreflects := h.reflects hstart hfault
  have hrenumber := h.renumber_start h' hsame hstart hstart'
  exact {
    indexed := h.indexed
    lawful := lawful_grammar h.bounded hfault
    classify_eq := hreflects.classify_eq (h'.reflects hstart' hfault') hsame
    shared := by
      intro lhs p hp id hid
      rcases hreflects.known lhs p hp id hid with rfl | ⟨s, hs, hid⟩
      · exact .size
      · exact h'.shared hsame hs hid
    production := by
      intro lhs p hp
      obtain ⟨hall, rfl⟩ := (mem_productionsOf h.bounded).1 hp
      refine (mem_productionsOf h'.bounded).2 ⟨mem_allProductions.2 ?_, rfl⟩
      rcases mem_allProductions.1 hall with hdeclared | rfl
      · exact .inl (h.renumber_mem h' hsame hdeclared)
      · -- the production that was not declared leads from one augmented start symbol to one start symbol
        refine .inr ?_
        show (⟨b.table.renumber b'.table b.table.size, [b.table.renumber b'.table start]⟩ : Production) = _
        rw [SymbolTable.renumber_size, hrenumber]
    start := hrenumber }

end Builder

/-- **Declarations that say the same make grammars that mirror each other.** -/
theorem mirrors_of_alike [Written σ] (h : ofDeclarations ds = .ok g)
    (h' : ofDeclarations ds' = .ok g') (hsame : Alike ds ds') : g.Mirrors g' := by
  obtain ⟨start, hstart, hfault, rfl⟩ := Builder.build_eq_ok_iff.1 h
  obtain ⟨start', hstart', hfault', rfl⟩ := Builder.build_eq_ok_iff.1 h'
  exact (Builder.took_declareAll ds).mirrors (Builder.took_declareAll ds') hsame hstart hstart' hfault hfault'

end Grammar

end CfgMembership
