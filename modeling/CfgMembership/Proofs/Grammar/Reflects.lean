/-
What a grammar has of the symbols that were declared.

`Grammar.Reflects` is everything that a grammar says of symbols and numbers, read off the declarations: the kind of every
symbol, the bodies of every left side in the order of their declaration, the start symbol, and the augmented start symbol
that was added. `reflects_of_ofCalls`: every grammar made by calls on a builder reflects their declarations, and holds each
production under the numbers that were given back when it was declared.

A number stands for a symbol as that was first written, which is `Declaration.spelling`.
-/
import CfgMembership.Proofs.Grammar.Declares

namespace CfgMembership.Grammar

open Declaration

variable {σ : Type} [BEq σ] [Hashable σ]

/-- the bodies of a symbol, in the order of its productions -/
def bodies (g : Grammar σ) (s : σ) : List (List (Option σ)) :=
  match g.table.id? s with
  | none => []
  | some id => (g.productionsOf id).map fun p => p.rhs.map g.table.symbol?

/-- a grammar has what was declared, and the augmented start symbol besides -/
structure Reflects (g : Grammar σ) (ds : List (Declaration σ)) : Prop where
  terminal_iff : ∀ s, g.classify s = .terminal ↔ Declares ds (.terminal s)
  nonTerminal_iff : ∀ s, g.classify s = .nonTerminal ↔ Declares ds (.nonTerminal s)
  undefined_iff : ∀ s, g.classify s = .undefined ↔ ¬Known ds s
  disjoint : ∀ id ∈ g.terminals, id ∉ g.nonTerminals
  bodies_eq : ∀ s, g.bodies s =
    ((productions ds).filter (·.1 == s)).map fun p => p.2.map fun s' => some (spelling ds s')
  lhs_eq : ∀ lhs, ∀ p ∈ g.productionsOf lhs, p.lhs = lhs
  /-- no other numbers stand in productions than those of symbols that are known and that of the augmented start -/
  known : ∀ lhs, ∀ p ∈ g.productionsOf lhs, ∀ id ∈ p.lhs :: p.rhs,
    id = g.augmentedStart ∨ ∃ s, Known ds s ∧ g.table.id? s = some id
  start : ∃ s, start? ds = some s ∧ g.table.id? s = some g.start
  kind_augmented : g.kind g.augmentedStart = .nonTerminal
  /-- no symbol has the number of the augmented start symbol, whether it was declared or not -/
  fresh : ∀ s, g.table.id? s ≠ some g.augmentedStart
  unused : ∀ lhs, ∀ p ∈ g.productionsOf lhs, g.augmentedStart ∉ p.rhs
  augmented : g.productionsOf g.augmentedStart = [⟨g.augmentedStart, [g.start]⟩]

/-! ## Kinds -/

theorem classify_eq_nonTerminal_iff {g : Grammar σ} {s : σ} :
    g.classify s = .nonTerminal ↔ ∃ id, g.table.id? s = some id ∧ g.kind id = .nonTerminal := by
  unfold classify
  cases g.table.id? s <;> simp

namespace Builder

variable [EquivBEq σ] [LawfulHashable σ] {b : Builder σ} {ds : List (Declaration σ)} {s : σ} {id start : Nat}

omit [EquivBEq σ] [LawfulHashable σ] in
theorem Bounded.ne_size (h : b.Bounded) (hid : b.table.id? s = some id) : id ≠ b.table.size :=
  Nat.ne_of_lt (h.table s id hid)

theorem Took.classify_eq_nonTerminal_iff (h : b.Took ds) :
    (b.grammar start).classify s = .nonTerminal ↔ Declares ds (.nonTerminal s) := by
  rw [Grammar.classify_eq_nonTerminal_iff]
  constructor
  · rintro ⟨id, hid, hkind⟩
    rcases (kind_grammar b start id).1 hkind with hsize | hmem
    · exact absurd hsize (h.bounded.ne_size hid)
    · exact (h.mem_nonTerminals_iff hid).1 hmem
  · intro hs
    obtain ⟨id, hid⟩ := h.exists_nonTerminal_id hs
    exact ⟨id, hid, (kind_grammar b start id).2 (.inr ((h.mem_nonTerminals_iff hid).2 hs))⟩

theorem Took.classify_eq_terminal_iff (h : b.Took ds) (hclear : ∀ s, ¬Ambiguous ds s) :
    (b.grammar start).classify s = .terminal ↔ Declares ds (.terminal s) := by
  rw [Grammar.classify_eq_terminal_iff]
  constructor
  · rintro ⟨id, hid, hkind⟩
    obtain ⟨-, -, hmem⟩ := (kind_grammar_eq_terminal_iff b start id).1 hkind
    exact (h.mem_terminals_iff hid).1 hmem
  · intro hs
    obtain ⟨id, hid⟩ := h.exists_terminal_id hs
    have hnot : id ∉ b.nonTerminals := fun hmem => hclear s ⟨hs, (h.mem_nonTerminals_iff hid).1 hmem⟩
    have hmem := (h.mem_terminals_iff hid).2 hs
    exact ⟨id, hid, (kind_grammar_eq_terminal_iff b start id).2 ⟨h.bounded.ne_size hid, hnot, hmem⟩⟩

/-- a number that was declared belongs to a symbol that is known -/
theorem Took.exists_known (h : b.Took ds) (hid : id ∈ b.nonTerminals ∨ id ∈ b.terminals) :
    ∃ s, Known ds s ∧ b.table.id? s = some id := by
  rcases hid with hmem | hmem
  · obtain ⟨s, -, hs⟩ := (h.sorts.nonTerminals.mem_iff id).1 hmem
    exact ⟨s, .inl ((h.mem_nonTerminals_iff hs).1 hmem), hs⟩
  · obtain ⟨s, -, hs⟩ := (h.sorts.terminals.mem_iff id).1 hmem
    exact ⟨s, .inr ((h.mem_terminals_iff hs).1 hmem), hs⟩

/-! ## Bodies -/

/-- productions of one left side match those declared for the symbols that equal it -/
theorem filter_matches {t : SymbolTable σ} {ps : List Production} {declared : List (σ × List σ)} (ht : t.Faithful)
    (h : List.Forall₂ (Matches t) ps declared) (hid : t.id? s = some id) :
    List.Forall₂ (Matches t) (ps.filter (·.lhs == id)) (declared.filter (·.1 == s)) := by
  refine List.rel_filter (fun p d hp => ?_) h
  show (p.lhs == id) = true ↔ (d.1 == s) = true
  rw [beq_iff_eq]
  constructor
  · rintro rfl
    exact ht _ _ _ hp.1 hid
  · intro hsame
    have hlhs := hp.1
    rw [SymbolTable.id?_congr hsame, hid] at hlhs
    exact (Option.some.inj hlhs).symm

omit [EquivBEq σ] [LawfulHashable σ] in
theorem productionsOf_of_lt (h : b.Bounded) (start : Nat) {lhs : Nat} (hlhs : lhs < b.table.size) :
    (b.grammar start).productionsOf lhs = b.productions.toList.filter (·.lhs == lhs) := by
  have hother : (b.table.size == lhs) = false := beq_false_of_ne (Nat.ne_of_gt hlhs)
  simp [productionsOf_grammar h, allProductions, hother]

theorem Took.map_symbol? (h : b.Took ds) {form : List σ} {ids : List Nat} (hform : b.table.Encodes form ids) :
    ids.map b.table.symbol? = form.map fun s => some (spelling ds s) := by
  induction form generalizing ids with
  | nil =>
    obtain rfl := List.map_eq_nil_iff.1 hform.symm
    rfl
  | cons s form ih =>
    obtain ⟨id, ids, rfl, hid, hids⟩ := List.map_eq_cons_iff.1 hform.symm
    rw [List.map_cons, List.map_cons, h.symbol?_eq hid.symm, ih hids.symm]

theorem Took.bodies_grammar (h : b.Took ds) (start : Nat) (s : σ) : (b.grammar start).bodies s =
    ((Declaration.productions ds).filter (·.1 == s)).map fun p => p.2.map fun s' => some (spelling ds s') := by
  show (match b.table.id? s with | none => [] | some id => _) = _
  cases hid : b.table.id? s with
  | none =>
    have hnone : (Declaration.productions ds).filter (·.1 == s) = [] := by
      rw [List.filter_eq_nil_iff]
      intro declared hdeclared hsame
      obtain ⟨p, -, hp, -⟩ := (exists_of_forall₂ h.records.productions).2 declared hdeclared
      rw [SymbolTable.id?_congr hsame, hid] at hp
      cases hp
    rw [hnone]
    rfl
  | some id =>
    show ((b.grammar start).productionsOf id).map (fun p => p.rhs.map b.table.symbol?) = _
    rw [productionsOf_of_lt h.bounded start (h.bounded.table s id hid), ← List.forall₂_eq_eq_eq,
      List.forall₂_map_left_iff, List.forall₂_map_right_iff]
    exact (filter_matches h.records.faithful h.records.productions hid).imp fun p declared hp => h.map_symbol? hp.2

/-! ## The grammar that is made -/

theorem Took.reflects [Written σ] (h : b.Took ds) (hstart : b.start = some start) (hfault : b.fault? start = none) :
    (b.grammar start).Reflects ds := by
  obtain ⟨hambiguous, hmarked, hproductions⟩ := fault?_eq_none_iff.1 hfault
  have hclear := h.ambiguous?_eq_none_iff.1 hambiguous
  have hlawful : (b.grammar start).Lawful := lawful_grammar h.bounded hfault
  have hterminal (s : σ) : (b.grammar start).classify s = .terminal ↔ Declares ds (.terminal s) :=
    h.classify_eq_terminal_iff hclear
  have hnonTerminal (s : σ) : (b.grammar start).classify s = .nonTerminal ↔ Declares ds (.nonTerminal s) :=
    h.classify_eq_nonTerminal_iff
  exact {
    terminal_iff := hterminal
    nonTerminal_iff := hnonTerminal
    undefined_iff := by
      intro s
      rw [Known, ← hterminal, ← hnonTerminal]
      cases (b.grammar start).classify s <;> simp
    disjoint := by
      intro id hterminal hmem
      rcases Std.HashSet.mem_insert.1 hmem with hsize | hmem
      · exact Nat.ne_of_gt (h.bounded.terminals id hterminal) (beq_iff_eq.1 hsize)
      · exact (Builder.ambiguous?_eq_none_iff h.bounded).1 hambiguous id hterminal hmem
    bodies_eq := h.bodies_grammar start
    lhs_eq := fun lhs p hp => hlawful.lhs_eq hp
    known := by
      intro lhs p hp id hid
      rcases mem_allProductions.1 ((mem_productionsOf h.bounded).1 hp).1 with hmem | rfl
      · rcases List.mem_cons.1 hid with rfl | hid
        · exact .inr (h.exists_known (.inl (hproductions p hmem).1))
        · exact .inr (h.exists_known ((hproductions p hmem).2 id hid))
      · rcases List.mem_cons.1 hid with rfl | hid
        · exact .inl rfl
        · rw [List.mem_singleton.1 hid]
          exact .inr (h.exists_known (.inl hmarked))
    start := h.records.start_eq_some_iff.1 hstart
    kind_augmented := hlawful.kind_augmentedStart
    fresh := fun s hs => h.bounded.ne_size hs rfl
    unused := by
      intro lhs p hp hmem
      rcases mem_allProductions.1 ((mem_productionsOf h.bounded).1 hp).1 with hold | rfl
      · exact Nat.lt_irrefl _ ((h.bounded.productions p hold).2 _ hmem)
      · exact Nat.ne_of_gt (h.bounded.start start hstart) (List.mem_singleton.1 hmem)
    augmented := hlawful.augmented }

/-! ## The numbers given back -/

omit [EquivBEq σ] [LawfulHashable σ] in
/-- productions are only added -/
theorem productions_declareAll (b : Builder σ) (ds : List (Declaration σ)) :
    b.productions.toList <+: (b.declareAll ds).productions.toList := by
  induction ds generalizing b with
  | nil => exact List.prefix_refl _
  | cons d ds ih =>
    refine List.IsPrefix.trans ?_ (ih (b.declare d))
    cases d with
    | production lhs rhs =>
      rw [Builder.declare, addProduction, Array.toList_push]
      exact List.prefix_append _ _
    | terminal | nonTerminal | start => exact List.prefix_refl _

theorem keeps_declareAll (b : Builder σ) (ds : List (Declaration σ)) : b.table.Keeps (b.declareAll ds).table := by
  induction ds generalizing b with
  | nil => exact .refl _
  | cons d ds ih =>
    refine SymbolTable.Keeps.trans ?_ (ih (b.declare d))
    rw [table_declare]
    exact SymbolTable.keeps_internAll b.table d.mentions

/-- a production is given back by the numbers of its symbols -/
theorem matches_addProduction (b : Builder σ) (lhs : σ) (rhs : List σ) :
    Matches (b.addProduction lhs rhs).2.table (b.addProduction lhs rhs).1 (lhs, rhs) :=
  ⟨SymbolTable.keeps_internAll _ rhs lhs _ (SymbolTable.id?_intern_self b.table lhs), SymbolTable.encodes_internAll _ rhs⟩

/-- what was given back for a production holds in the end, and the production stands behind those of its left side that
were declared before it -/
theorem Took.getElem?_productionsOf (h : b.Took ds) (after : List (Declaration σ)) (lhs : σ) (rhs : List σ)
    (start : Nat) :
    let p := (b.addProduction lhs rhs).1
    let b' := (b.declare (.production lhs rhs)).declareAll after
    Matches b'.table p (lhs, rhs) ∧
      ((b'.grammar start).productionsOf p.lhs)[((Declaration.productions ds).filter (·.1 == lhs)).length]? = some p := by
  intro p b'
  have htook : b'.Took (ds ++ [.production lhs rhs] ++ after) := (h.declare _).declareAll after
  have hkeeps : (b.declare (.production lhs rhs)).table.Keeps b'.table := keeps_declareAll _ after
  have hp : Matches b'.table p (lhs, rhs) :=
    ⟨hkeeps _ _ (matches_addProduction b lhs rhs).1, (matches_addProduction b lhs rhs).2.of_keeps hkeeps⟩
  refine ⟨hp, ?_⟩
  -- the numbers of the productions declared before are the same in the end
  have hall : b.table.Keeps b'.table := (keeps_declareAll b [.production lhs rhs]).trans hkeeps
  have hbefore : List.Forall₂ (Matches b'.table) b.productions.toList (Declaration.productions ds) :=
    h.records.productions.imp fun _ _ hq => ⟨hall _ _ hq.1, hq.2.of_keeps hall⟩
  have hlength := (filter_matches htook.records.faithful hbefore hp.1).length_eq
  obtain ⟨later, hlater⟩ := productions_declareAll (b.declare (.production lhs rhs)) after
  have hdeclared : (b.declare (.production lhs rhs)).productions.toList = b.productions.toList ++ [p] :=
    Array.toList_push ..
  rw [productionsOf_of_lt htook.bounded start (htook.bounded.table _ _ hp.1), ← hlater, hdeclared, ← hlength]
  simp

end Builder

variable [EquivBEq σ] [LawfulHashable σ] [Written σ]

/-- **What a grammar made by calls has.** It reflects the declarations of the calls. The numbers given back when a
production was declared are the numbers of its symbols in the grammar, and under them the production is found behind those
that were declared for its left side before. -/
theorem reflects_of_ofCalls {calls : List (Call σ)} {g : Grammar σ} (h : ofCalls calls = .ok g) :
    g.Reflects (Call.allDeclarations calls) ∧
    ∀ before lhs rhs after, calls = before ++ .declaration (.production lhs rhs) :: after →
      let p := ((Builder.empty.callAll before).addProduction lhs rhs).1
      g.table.id? lhs = some p.lhs ∧ g.table.Encodes rhs p.rhs ∧
      (g.productionsOf p.lhs)[((productions (Call.allDeclarations before)).filter (·.1 == lhs)).length]? = some p := by
  rw [ofCalls_eq] at h
  obtain ⟨start, hstart, hfault, rfl⟩ := Builder.build_eq_ok_iff.1 h
  refine ⟨(Builder.took_declareAll _).reflects hstart hfault, ?_⟩
  rintro before lhs rhs after rfl p
  have hbuilder : Builder.empty.declareAll (Call.allDeclarations (before ++ .declaration (.production lhs rhs) :: after)) =
      ((Builder.empty.callAll before).declare (.production lhs rhs)).declareAll (Call.allDeclarations after) := by
    rw [← Builder.callAll_eq, Builder.callAll, List.foldl_append, List.foldl_cons, ← Builder.callAll_eq]
    rfl
  rw [hbuilder]
  have htook : (Builder.empty.callAll before).Took (Call.allDeclarations before) := by
    rw [Builder.callAll_eq]
    exact Builder.took_declareAll _
  obtain ⟨hmatches, hget⟩ := htook.getElem?_productionsOf (Call.allDeclarations after) lhs rhs start
  exact ⟨hmatches.1, hmatches.2, hget⟩

/-! ## The sample by calls -/

def sampleCalls : List (Call Char) :=
  [.declaration (.start 'S'), .productions 'S' [['A', 'S', 'b'], []], .declaration (.production 'A' ['a']),
    .declaration (.production 'A' ['S']), .declaration (.nonTerminal 'S'), .declaration (.nonTerminal 'A'),
    .declaration (.terminal 'a'), .declaration (.terminal 'b')]

theorem ofCalls_sampleCalls : ofCalls sampleCalls = .ok sample := (ofCalls_eq sampleCalls).trans ofDeclarations_sample

/-- in the sample `b` is a terminal, `A` has its two bodies in order, and `A -> S` was given back as the second one -/
theorem reflects_sample : ofCalls sampleCalls = .ok sample ∧ sample.classify 'b' = .terminal ∧
    sample.bodies 'A' = [[some 'a'], [some 'S']] ∧ (sample.productionsOf 1)[1]? = some ⟨1, [0]⟩ := by
  obtain ⟨hreflects, hgiven⟩ := reflects_of_ofCalls ofCalls_sampleCalls
  have hterminal : Declares (Call.allDeclarations sampleCalls) (.terminal 'b') :=
    ⟨.terminal 'b', by simp [Call.allDeclarations, sampleCalls, Call.declarations], rfl⟩
  have hbodies : sample.bodies 'A' = [[some 'a'], [some 'S']] := by
    rw [hreflects.bodies_eq]
    rfl
  have hback := hgiven (sampleCalls.take 3) 'A' ['S'] (sampleCalls.drop 4) rfl
  have hproduction : ((Builder.empty.callAll (sampleCalls.take 3)).addProduction 'A' ['S']).1 = ⟨1, [0]⟩ := by cbv
  rw [hproduction] at hback
  exact ⟨ofCalls_sampleCalls, (hreflects.terminal_iff 'b').2 hterminal, hbodies, hback.2.2⟩

end CfgMembership.Grammar
