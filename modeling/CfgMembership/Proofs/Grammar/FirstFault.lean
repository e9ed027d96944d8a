/-
The fault that calls on a builder end with.

`Declaration.FirstFault` puts the faults in their order, without numbers or tables: no start symbol; the earliest symbol
that is declared of both kinds; a start symbol that is no non-terminal; the first production that does not go with the
declarations. `ofCalls_eq_error_iff`: a grammar is refused for the first fault, and for no other reason.

A fault names a symbol as it was first written, which is `Declaration.spelling`.
-/
import CfgMembership.Proofs.Grammar.Declares

namespace CfgMembership

variable {σ : Type}

/-! ## Faults in their order -/

namespace Declaration

variable [BEq σ]

variable [Written σ]

/-- what is wrong with a production: its left side is no non-terminal, or else the leftmost unknown symbol of its body -/
inductive ProductionFault (ds : List (Declaration σ)) : σ × List σ → Grammar.Fault → Prop where
  | lhsNotNonTerminal {lhs : σ} {rhs : List σ} (kind : ¬Declares ds (.nonTerminal lhs)) :
    ProductionFault ds (lhs, rhs) (.lhsNotNonTerminal (Written.text (spelling ds lhs)))
  | undefinedSymbol {lhs s : σ} {front back : List σ} (kind : Declares ds (.nonTerminal lhs))
    (leftmost : ∀ s' ∈ front, Known ds s') (unknown : ¬Known ds s) :
    ProductionFault ds (lhs, front ++ s :: back) (.undefinedSymbol (Written.text (spelling ds s)))

inductive FirstFault (ds : List (Declaration σ)) : Grammar.Fault → Prop where
  | noStart (unmarked : ∀ s, .start s ∉ ds) : FirstFault ds .noStart
  | ambiguousKind {start s : σ} {before after : List σ} (marked : start? ds = some start)
    (mentioned : ds.flatMap mentions = before ++ s :: after) (ambiguous : Ambiguous ds s)
    (earliest : ∀ s' ∈ before, ¬Ambiguous ds s') : FirstFault ds (.ambiguousKind (Written.text s))
  | startNotNonTerminal {start : σ} (marked : start? ds = some start) (clear : ∀ s, ¬Ambiguous ds s)
    (kind : ¬Declares ds (.nonTerminal start)) :
    FirstFault ds (.startNotNonTerminal (Written.text (spelling ds start)))
  | production {start : σ} {before after : List (σ × List σ)} {p : σ × List σ} {fault : Grammar.Fault}
    (marked : start? ds = some start) (clear : ∀ s, ¬Ambiguous ds s) (kind : Declares ds (.nonTerminal start))
    (declared : productions ds = before ++ p :: after) (earliest : ∀ q ∈ before, Fits ds q)
    (wrong : ProductionFault ds p fault) : FirstFault ds fault

omit [BEq σ] [Written σ] in
theorem start?_eq_none_iff {ds : List (Declaration σ)} : start? ds = none ↔ ∀ s, .start s ∉ ds := by
  rw [start?, List.getLast?_eq_none_iff, List.filterMap_eq_nil_iff]
  constructor
  · intro h s hs
    have := h _ hs
    cases this
  · intro h d hd
    cases d with
    | start s => exact absurd hd (h s)
    | terminal | nonTerminal | production => rfl

end Declaration

open Declaration

/-! ## The check of a builder -/

theorem SymbolTable.nameOf_of_symbol? [BEq σ] [Hashable σ] [Written σ] {t : SymbolTable σ} {s : σ} {id : Nat}
    (hs : t.symbol? id = some s) : t.nameOf id = Written.text s := by
  simp [nameOf, hs]

/-- the first position with a property, and the first entry -/
theorem find?_range_bind {α : Type} (l : List α) (p : α → Bool) (q : Nat → Bool)
    (h : ∀ (i : Nat) (a : α), l[i]? = some a → q i = p a) :
    ((List.range l.length).find? q).bind (l[·]?) = l.find? p := by
  cases hfind : (List.range l.length).find? q with
  | none =>
    rw [Option.bind_none, eq_comm, List.find?_eq_none]
    intro a ha
    obtain ⟨i, hi⟩ := List.getElem?_of_mem ha
    rw [← h i a hi]
    exact List.find?_eq_none.1 hfind i (List.mem_range.2 (List.getElem?_eq_some_iff.1 hi).1)
  | some i =>
    rw [List.find?_range_eq_some, List.mem_range] at hfind
    obtain ⟨hq, hlt, hbefore⟩ := hfind
    rw [Option.bind_some, List.getElem?_eq_getElem hlt, eq_comm, List.find?_eq_some_iff_getElem]
    refine ⟨h i _ (List.getElem?_eq_getElem hlt) ▸ hq, i, hlt, rfl, fun j hj => ?_⟩
    rw [← h j _ (List.getElem?_eq_getElem _)]
    exact hbefore j hj

namespace Grammar

namespace Builder

variable [BEq σ] [Hashable σ] {b : Builder σ} {ds : List (Declaration σ)} {fault : Fault} {start : Nat}

section Numbers

variable [Written σ]

theorem productionFault?_eq_some_iff {p : Production} : b.productionFault? p = some fault ↔
    (p.lhs ∉ b.nonTerminals ∧ fault = .lhsNotNonTerminal (b.table.nameOf p.lhs)) ∨
    (p.lhs ∈ b.nonTerminals ∧ ∃ front id back, p.rhs = front ++ id :: back ∧
      (∀ id ∈ front, id ∈ b.nonTerminals ∨ id ∈ b.terminals) ∧ ¬(id ∈ b.nonTerminals ∨ id ∈ b.terminals) ∧
      fault = .undefinedSymbol (b.table.nameOf id)) := by
  unfold productionFault?
  split
  · rename_i hlhs
    have hlhs := Std.HashSet.contains_iff_mem.1 hlhs
    simp only [hlhs, not_true_eq_false, false_and, true_and, false_or, Option.map_eq_some_iff,
      List.find?_eq_some_iff_append, Bool.not_eq_true', Bool.or_eq_false_iff, Bool.or_eq_true,
      Std.HashSet.contains_iff_mem, Bool.not_not]
    constructor
    · rintro ⟨id, ⟨hid, front, back, hrhs, hfront⟩, rfl⟩
      refine ⟨front, id, back, hrhs, hfront, ?_, rfl⟩
      simpa [← Bool.not_eq_true] using hid
    · rintro ⟨front, id, back, hrhs, hfront, hid, rfl⟩
      refine ⟨id, ⟨?_, front, back, hrhs, hfront⟩, rfl⟩
      simpa [← Bool.not_eq_true] using hid
  · rename_i hlhs
    have hlhs := mt Std.HashSet.contains_iff_mem.2 hlhs
    simp [hlhs, eq_comm]

theorem fault?_eq_some_iff : b.fault? start = some fault ↔
    (∃ id, b.ambiguous? = some id ∧ fault = .ambiguousKind (b.table.nameOf id)) ∨
    (b.ambiguous? = none ∧ start ∉ b.nonTerminals ∧ fault = .startNotNonTerminal (b.table.nameOf start)) ∨
    (b.ambiguous? = none ∧ start ∈ b.nonTerminals ∧ ∃ before p after, b.productions.toList = before ++ p :: after ∧
      b.productionFault? p = some fault ∧ ∀ q ∈ before, b.productionFault? q = none) := by
  unfold fault?
  split
  · rename_i id hid
    simp [hid, eq_comm]
  · rename_i hnone
    split
    · rename_i hstart
      have hstart := Std.HashSet.contains_iff_mem.1 hstart
      simp only [hnone, hstart, List.findSome?_eq_some_iff]
      simp
    · rename_i hstart
      have hstart := mt Std.HashSet.contains_iff_mem.2 hstart
      simp [hnone, hstart, eq_comm]

theorem build_eq_error_iff : b.build = .error fault ↔
    (b.start = none ∧ fault = .noStart) ∨ ∃ start, b.start = some start ∧ b.fault? start = some fault := by
  unfold build
  split
  · rename_i hstart
    simp [hstart, eq_comm]
  · rename_i start hstart
    split
    · rename_i fault' hfault
      simp [hstart, hfault]
    · rename_i hfault
      simp [hstart, hfault]

end Numbers

section Symbols

theorem exists_symbol_of_ambiguous? {id : Nat} (h : b.ambiguous? = some id) : ∃ s, b.table.symbol? id = some s := by
  have hlt := List.mem_range.1 (List.mem_of_find?_eq_some h)
  exact ⟨_, Array.getElem?_eq_getElem hlt⟩

theorem Took.exists_start (h : b.Took ds) {s : σ} (hs : start? ds = some s) :
    ∃ start, b.start = some start ∧ b.table.id? s = some start := by
  have hstart := h.records.start
  rw [hs] at hstart
  obtain ⟨start, hb, hid⟩ := Option.map_eq_some_iff.1 hstart
  exact ⟨start, hb, hid.symm⟩

variable [EquivBEq σ] [LawfulHashable σ]

open Classical in
/-- the least ambiguous number is that of the earliest ambiguous symbol -/
theorem Took.ambiguous?_bind (h : b.Took ds) :
    b.ambiguous?.bind b.table.symbol? = (ds.flatMap mentions).find? fun s => Ambiguous ds s := by
  rw [← h.first (fun s => Ambiguous ds s) fun s s' hsame => by rw [decide_eq_decide, ambiguous_congr hsame]]
  have hsize : b.table.size = b.table.symbols.toList.length := Array.length_toList.symm
  have hsymbol : b.table.symbol? = (b.table.symbols.toList[·]?) := by
    funext id
    rw [Array.getElem?_toList, SymbolTable.symbol?]
  rw [ambiguous?, hsize, hsymbol]
  refine find?_range_bind _ _ _ fun id s hs => ?_
  have hid := h.indexed.id?_of_symbol? (SymbolTable.symbol?_eq_some_iff.2 hs)
  rw [Bool.eq_iff_iff, Bool.and_eq_true, decide_eq_true_eq, Std.HashSet.contains_iff_mem, Std.HashSet.contains_iff_mem,
    h.mem_terminals_iff hid, h.mem_nonTerminals_iff hid]
  exact Iff.rfl

theorem Took.exists_ambiguous?_iff (h : b.Took ds) {s : σ} :
    (∃ id, b.ambiguous? = some id ∧ b.table.symbol? id = some s) ↔
      Ambiguous ds s ∧ ∃ before after, ds.flatMap mentions = before ++ s :: after ∧ ∀ s' ∈ before, ¬Ambiguous ds s' := by
  rw [← Option.bind_eq_some_iff, h.ambiguous?_bind, List.find?_eq_some_iff_append]
  simp

variable [Written σ] {s : σ} {id : Nat}

/-- a symbol is named as it was first written -/
theorem Took.nameOf_eq (h : b.Took ds) (hid : b.table.id? s = some id) :
    b.table.nameOf id = Written.text (spelling ds s) :=
  SymbolTable.nameOf_of_symbol? (h.symbol?_eq hid)

theorem Took.productionFault?_eq_none_iff (h : b.Took ds) {p : Production} {declared : σ × List σ}
    (hp : Matches b.table p declared) : b.productionFault? p = none ↔ Fits ds declared := by
  rw [Builder.productionFault?_eq_none_iff, h.fits_iff hp]

theorem Took.productionFault?_eq_some_iff (h : b.Took ds) {p : Production} {declared : σ × List σ}
    (hp : Matches b.table p declared) : b.productionFault? p = some fault ↔ ProductionFault ds declared fault := by
  obtain ⟨lhs, rhs⟩ := declared
  obtain ⟨hlhs, hrhs⟩ := hp
  rw [Builder.productionFault?_eq_some_iff, h.mem_nonTerminals_iff hlhs]
  constructor
  · rintro (⟨hkind, rfl⟩ | ⟨hkind, front, id, back, hbody, hfront, hid, rfl⟩)
    · rw [h.nameOf_eq hlhs]
      exact .lhsNotNonTerminal hkind
    · rw [hbody] at hrhs
      obtain ⟨before, s, after, rfl, hbefore, hs, -⟩ := hrhs.split_ids
      rw [h.nameOf_eq hs]
      refine .undefinedSymbol hkind ?_ (mt (h.known_iff hs).2 hid)
      exact (hbefore.forall_iff fun _ _ hid => h.known_iff hid).1 hfront
  · intro hfault
    cases hfault with
    | lhsNotNonTerminal kind => exact .inl ⟨kind, by rw [h.nameOf_eq hlhs]⟩
    | undefinedSymbol kind leftmost unknown =>
      obtain ⟨before, id, after, hbody, hbefore, hid, -⟩ := hrhs.split
      refine .inr ⟨kind, before, id, after, hbody, ?_, mt (h.known_iff hid).1 unknown, by rw [h.nameOf_eq hid]⟩
      exact (hbefore.forall_iff fun _ _ hid => h.known_iff hid).2 leftmost

theorem Took.fault_of_build (h : b.Took ds) (hbuild : b.build = .error fault) : FirstFault ds fault := by
  rcases build_eq_error_iff.1 hbuild with ⟨hstart, rfl⟩ | ⟨start, hstart, hfault⟩
  · refine .noStart (start?_eq_none_iff.1 ?_)
    rw [← Option.map_eq_none_iff, ← h.records.start, hstart, Option.map_none]
  · obtain ⟨s, hs, hid⟩ := h.records.start_eq_some_iff.1 hstart
    rcases fault?_eq_some_iff.1 hfault with ⟨id, hambiguous, rfl⟩ | ⟨hnone, hkind, rfl⟩ |
      ⟨hnone, hkind, before, p, after, hall, hp, hbefore⟩
    · obtain ⟨a, ha⟩ := exists_symbol_of_ambiguous? hambiguous
      obtain ⟨hboth, front, back, hmentions, hfront⟩ := h.exists_ambiguous?_iff.1 ⟨id, hambiguous, ha⟩
      rw [SymbolTable.nameOf_of_symbol? ha]
      exact .ambiguousKind hs hmentions hboth hfront
    · rw [h.nameOf_eq hid]
      exact .startNotNonTerminal hs (h.ambiguous?_eq_none_iff.1 hnone) (mt (h.mem_nonTerminals_iff hid).2 hkind)
    · have hmatches := h.records.productions
      rw [hall] at hmatches
      obtain ⟨before', declared, after', hdeclared, hfront, hmatch, -⟩ := forall₂_split hmatches
      refine .production hs (h.ambiguous?_eq_none_iff.1 hnone) ((h.mem_nonTerminals_iff hid).1 hkind) hdeclared ?_
        ((h.productionFault?_eq_some_iff hmatch).1 hp)
      intro q hq
      obtain ⟨p', hp', hmatch'⟩ := (exists_of_forall₂ hfront).2 q hq
      exact (h.productionFault?_eq_none_iff hmatch').1 (hbefore p' hp')

theorem Took.build_of_fault (h : b.Took ds) (hfault : FirstFault ds fault) : b.build = .error fault := by
  rw [build_eq_error_iff]
  cases hfault with
  | noStart unmarked =>
    refine .inl ⟨?_, rfl⟩
    rw [← Option.map_eq_none_iff (f := some), h.records.start, start?_eq_none_iff.2 unmarked, Option.map_none]
  | ambiguousKind marked mentioned ambiguous earliest =>
    obtain ⟨start, hstart⟩ := h.exists_start marked
    obtain ⟨id, hid, hsymbol⟩ := h.exists_ambiguous?_iff.2 ⟨ambiguous, _, _, mentioned, earliest⟩
    refine .inr ⟨start, hstart.1, fault?_eq_some_iff.2 (.inl ⟨id, hid, ?_⟩)⟩
    rw [SymbolTable.nameOf_of_symbol? hsymbol]
  | startNotNonTerminal marked clear kind =>
    obtain ⟨start, hstart, hid⟩ := h.exists_start marked
    refine .inr ⟨start, hstart, fault?_eq_some_iff.2 (.inr (.inl ⟨h.ambiguous?_eq_none_iff.2 clear, ?_, ?_⟩))⟩
    · exact mt (h.mem_nonTerminals_iff hid).1 kind
    · rw [h.nameOf_eq hid]
  | production marked clear kind declared earliest wrong =>
    obtain ⟨start, hstart, hid⟩ := h.exists_start marked
    have hmatches := h.records.productions.flip
    rw [declared] at hmatches
    obtain ⟨before, p, after, hall, hfront, hmatch, -⟩ := forall₂_split hmatches
    refine .inr ⟨start, hstart, fault?_eq_some_iff.2 (.inr (.inr ⟨h.ambiguous?_eq_none_iff.2 clear,
      (h.mem_nonTerminals_iff hid).2 kind, before, p, after, hall, (h.productionFault?_eq_some_iff hmatch).2 wrong, ?_⟩))⟩
    intro q hq
    obtain ⟨declared', hdeclared', hmatch'⟩ := (exists_of_forall₂ hfront).2 q hq
    exact (h.productionFault?_eq_none_iff hmatch').2 (earliest declared' hdeclared')

end Symbols

end Builder

variable [BEq σ] [Hashable σ] [EquivBEq σ] [LawfulHashable σ] [Written σ]

/-- **Why calls make no grammar.** Calls on a builder end with a fault just when it is the first fault of their
declarations, and make a grammar when there is none. -/
theorem ofCalls_eq_error_iff (calls : List (Call σ)) :
    (∀ fault, ofCalls calls = .error fault ↔ FirstFault (Call.allDeclarations calls) fault) ∧
    ((∃ g, ofCalls calls = .ok g) ↔ ∀ fault, ¬FirstFault (Call.allDeclarations calls) fault) := by
  rw [ofCalls_eq]
  have h : (Builder.empty.declareAll (Call.allDeclarations calls)).Took (Call.allDeclarations calls) :=
    Builder.took_declareAll _
  have herror (fault : Fault) : ofDeclarations (Call.allDeclarations calls) = .error fault ↔
      FirstFault (Call.allDeclarations calls) fault := ⟨h.fault_of_build, h.build_of_fault⟩
  refine ⟨herror, ?_⟩
  constructor
  · rintro ⟨g, hg⟩ fault hfault
    rw [← herror, hg] at hfault
    cases hfault
  · intro hnone
    cases hresult : ofDeclarations (Call.allDeclarations calls) with
    | ok g => exact ⟨g, rfl⟩
    | error fault => exact absurd ((herror fault).1 hresult) (hnone fault)

/-- calls that declare both `b` and `c` of both kinds, and `a`, the start symbol, of none -/
def ambiguousCalls : List (Call Char) :=
  [.declaration (.start 'a'), .productions 'a' [['b', 'c']], .declaration (.terminal 'c'),
    .declaration (.nonTerminal 'c'), .declaration (.terminal 'b'), .declaration (.nonTerminal 'b')]

/-- `b` is mentioned before `c`, though declared after it, and that it is of both kinds goes before all that is wrong with
`a` -/
theorem ofCalls_ambiguousCalls : ofCalls ambiguousCalls = .error (.ambiguousKind "b") := by
  have hmentioned : (Call.allDeclarations ambiguousCalls).flatMap mentions =
      ['a', 'a'] ++ 'b' :: ['c', 'c', 'c', 'b', 'b'] := rfl
  refine ((ofCalls_eq_error_iff ambiguousCalls).1 _).2 (.ambiguousKind rfl hmentioned ⟨?_, ?_⟩ ?_)
  · exact ⟨.terminal 'b', by simp [Call.allDeclarations, ambiguousCalls, Call.declarations], rfl⟩
  · exact ⟨.nonTerminal 'b', by simp [Call.allDeclarations, ambiguousCalls, Call.declarations], rfl⟩
  · intro s hs hboth
    obtain rfl : s = 'a' := by simpa using hs
    obtain ⟨s', hs', hsame⟩ := declares_terminal_iff.1 hboth.1
    rw [beq_iff_eq] at hsame
    subst hsame
    simp [Call.allDeclarations, ambiguousCalls, Call.declarations] at hs'

end Grammar

end CfgMembership
