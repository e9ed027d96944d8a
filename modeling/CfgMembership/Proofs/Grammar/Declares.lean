/-
What declarations say, up to the equality of symbols.

Symbols may be equal and yet written differently, and a declaration counts for all symbols that equal the one it names
(`Declaration.Declares`). A builder that took in declarations (`Builder.Took`) holds the numbers of the symbols declared
of each kind, and `exists_ofDeclarations_iff_fits` says when it makes a grammar. `ofCalls_eq` reduces calls on a builder
to the declarations that they make.
-/
import CfgMembership.Proofs.Grammar.Kinds
import CfgMembership.Proofs.SymbolTable.Spelling

namespace CfgMembership

variable {σ : Type}

/-! ## Calls -/

def Call.declarations : Call σ → List (Declaration σ)
  | .declaration d => [d]
  | .productions lhs bodies => bodies.map (.production lhs)

def Call.allDeclarations (calls : List (Call σ)) : List (Declaration σ) := calls.flatMap declarations

namespace Grammar

variable [BEq σ] [Hashable σ]

theorem Builder.call_eq (b : Builder σ) (c : Call σ) : b.call c = b.declareAll c.declarations := by
  cases c with
  | declaration d => rfl
  | productions lhs bodies =>
    show bodies.foldl (fun b rhs => (b.addProduction lhs rhs).2) b = (bodies.map (.production lhs)).foldl declare b
    rw [List.foldl_map]
    rfl

theorem Builder.callAll_eq (b : Builder σ) (calls : List (Call σ)) :
    b.callAll calls = b.declareAll (Call.allDeclarations calls) := by
  induction calls generalizing b with
  | nil => rfl
  | cons c calls ih =>
    calc b.callAll (c :: calls) = (b.call c).callAll calls := rfl
      _ = (b.declareAll c.declarations).declareAll (Call.allDeclarations calls) := by rw [ih, call_eq]
      _ = b.declareAll (Call.allDeclarations (c :: calls)) := (List.foldl_append ..).symm

/-- calls make the grammar of their declarations -/
theorem ofCalls_eq [Written σ] (calls : List (Call σ)) :
    ofCalls calls = ofDeclarations (Call.allDeclarations calls) := by
  rw [ofCalls, Builder.callAll_eq, ofDeclarations]

end Grammar

/-! ## Declarations up to equality -/

namespace Declaration

variable [BEq σ] {ds : List (Declaration σ)} {s s' lhs : σ} {rhs : List σ}

/-- whether two declarations say the same of equal symbols -/
def same : Declaration σ → Declaration σ → Bool
  | .terminal s, .terminal s' => s == s'
  | .nonTerminal s, .nonTerminal s' => s == s'
  | .start s, .start s' => s == s'
  | .production lhs rhs, .production lhs' rhs' => lhs == lhs' && rhs == rhs'
  | _, _ => false

/-- something is declared, if perhaps of equal symbols -/
def Declares (ds : List (Declaration σ)) (d : Declaration σ) : Prop := ∃ d' ∈ ds, d'.same d

theorem declares_terminal_iff : Declares ds (.terminal s) ↔ ∃ s', .terminal s' ∈ ds ∧ s' == s := by
  constructor
  · rintro ⟨d, hd, hsame⟩
    cases d <;> simp only [same, Bool.false_eq_true] at hsame
    exact ⟨_, hd, hsame⟩
  · rintro ⟨s', hs', hsame⟩
    exact ⟨_, hs', hsame⟩

theorem declares_nonTerminal_iff : Declares ds (.nonTerminal s) ↔ ∃ s', .nonTerminal s' ∈ ds ∧ s' == s := by
  constructor
  · rintro ⟨d, hd, hsame⟩
    cases d <;> simp only [same, Bool.false_eq_true] at hsame
    exact ⟨_, hd, hsame⟩
  · rintro ⟨s', hs', hsame⟩
    exact ⟨_, hs', hsame⟩

theorem declares_production_iff :
    Declares ds (.production lhs rhs) ↔ ∃ p ∈ productions ds, p.1 == lhs ∧ p.2 == rhs := by
  constructor
  · rintro ⟨d, hd, hsame⟩
    cases d <;> simp only [same, Bool.false_eq_true, Bool.and_eq_true] at hsame
    exact ⟨_, mem_productions.2 hd, hsame⟩
  · rintro ⟨⟨lhs', rhs'⟩, hp, hsame⟩
    refine ⟨_, mem_productions.1 hp, ?_⟩
    rw [same, Bool.and_eq_true]
    exact hsame

theorem declares_terminal_congr [EquivBEq σ] (h : s == s') :
    Declares ds (.terminal s) ↔ Declares ds (.terminal s') := by
  simp only [declares_terminal_iff, BEq.congr_right h]

theorem declares_nonTerminal_congr [EquivBEq σ] (h : s == s') :
    Declares ds (.nonTerminal s) ↔ Declares ds (.nonTerminal s') := by
  simp only [declares_nonTerminal_iff, BEq.congr_right h]

/-- a symbol is declared of some kind -/
def Known (ds : List (Declaration σ)) (s : σ) : Prop := Declares ds (.nonTerminal s) ∨ Declares ds (.terminal s)

/-- a symbol is declared of both kinds -/
def Ambiguous (ds : List (Declaration σ)) (s : σ) : Prop := Declares ds (.terminal s) ∧ Declares ds (.nonTerminal s)

/-- a production goes with the declarations: its left side is a non-terminal, and the symbols of its body are known -/
def Fits (ds : List (Declaration σ)) (p : σ × List σ) : Prop := Declares ds (.nonTerminal p.1) ∧ ∀ s ∈ p.2, Known ds s

theorem ambiguous_congr [EquivBEq σ] (h : s == s') : Ambiguous ds s ↔ Ambiguous ds s' :=
  and_congr (declares_terminal_congr h) (declares_nonTerminal_congr h)

/-- a symbol as it was first written -/
def spelling (ds : List (Declaration σ)) (s : σ) : σ := ((ds.flatMap mentions).find? (· == s)).getD s

theorem spelling_beq [EquivBEq σ] (ds : List (Declaration σ)) (s : σ) : spelling ds s == s := by
  unfold spelling
  cases hfind : (ds.flatMap mentions).find? (· == s) with
  | none => exact BEq.rfl
  | some first =>
    have hsame := List.find?_some hfind
    exact hsame

theorem spelling_eq [LawfulBEq σ] (ds : List (Declaration σ)) (s : σ) : spelling ds s = s :=
  eq_of_beq (spelling_beq ds s)

end Declaration

open Declaration

/-- a list that falls into parts is matched part by part -/
theorem forall₂_split {α β : Type} {R : α → β → Prop} {a : α} {before after : List α} {bs : List β}
    (h : List.Forall₂ R (before ++ a :: after) bs) :
    ∃ front b back, bs = front ++ b :: back ∧ List.Forall₂ R before front ∧ R a b ∧ List.Forall₂ R after back := by
  induction before generalizing bs with
  | nil =>
    obtain ⟨b, back, hab, hback, rfl⟩ := List.forall₂_cons_left_iff.1 h
    exact ⟨[], b, back, rfl, .nil, hab, hback⟩
  | cons a' before ih =>
    obtain ⟨b', bs, hab', hbs, rfl⟩ := List.forall₂_cons_left_iff.1 h
    obtain ⟨front, b, back, rfl, hfront, hab, hback⟩ := ih hbs
    exact ⟨b' :: front, b, back, rfl, .cons hab' hfront, hab, hback⟩

namespace Grammar

variable [BEq σ] [Hashable σ] {ds : List (Declaration σ)}

namespace Builder

variable {b : Builder σ} {s : σ} {id : Nat}

/-! ## What a builder took in -/

structure Took (b : Builder σ) (ds : List (Declaration σ)) : Prop where
  bounded : b.Bounded
  records : b.Records ds
  sorts : b.Sorts ds
  indexed : b.table.Indexed
  first : b.table.KeepsFirst (ds.flatMap mentions)

theorem took_empty : (empty : Builder σ).Took [] where
  bounded := bounded_empty
  records := records_empty
  sorts := sorts_empty
  indexed := SymbolTable.indexed_empty
  first := SymbolTable.keepsFirst_empty

section Lawful

variable [EquivBEq σ] [LawfulHashable σ]

theorem Took.declare (h : b.Took ds) (d : Declaration σ) : (b.declare d).Took (ds ++ [d]) where
  bounded := h.bounded.declare d
  records := h.records.declare h.bounded d
  sorts := h.sorts.declare d
  indexed := by
    rw [table_declare]
    exact h.indexed.internAll d.mentions
  first := by
    rw [table_declare, List.flatMap_append, List.flatMap_singleton]
    exact h.first.internAll h.indexed d.mentions

theorem Took.declareAll (h : b.Took ds) (more : List (Declaration σ)) : (b.declareAll more).Took (ds ++ more) := by
  induction more generalizing b ds with
  | nil => rwa [List.append_nil]
  | cons d more ih =>
    have := ih (h.declare d)
    rwa [List.append_assoc] at this

theorem took_declareAll (ds : List (Declaration σ)) : (empty.declareAll ds : Builder σ).Took ds :=
  took_empty.declareAll ds

/-- the symbol kept for a number is as it was first written -/
theorem Took.symbol?_eq (h : b.Took ds) (hid : b.table.id? s = some id) :
    b.table.symbol? id = some (spelling ds s) := by
  obtain ⟨kept, hkept, -⟩ := h.indexed.exists_symbol hid
  have hfirst := h.first.symbol?_eq h.indexed hid
  rw [hkept] at hfirst
  rw [hkept, spelling, ← hfirst, Option.getD_some]

/-! ## Kinds and productions -/

theorem Took.mem_terminals_iff (h : b.Took ds) (hid : b.table.id? s = some id) :
    id ∈ b.terminals ↔ Declares ds (.terminal s) := by
  rw [h.sorts.terminals.mem_iff_of_faithful h.records.faithful hid, declares_terminal_iff]

theorem Took.mem_nonTerminals_iff (h : b.Took ds) (hid : b.table.id? s = some id) :
    id ∈ b.nonTerminals ↔ Declares ds (.nonTerminal s) := by
  rw [h.sorts.nonTerminals.mem_iff_of_faithful h.records.faithful hid, declares_nonTerminal_iff]

/-- a symbol declared a terminal has a number -/
theorem Took.exists_terminal_id (h : b.Took ds) (hs : Declares ds (.terminal s)) : ∃ id, b.table.id? s = some id := by
  obtain ⟨s', hs', hsame⟩ := declares_terminal_iff.1 hs
  rw [← SymbolTable.id?_congr hsame]
  exact h.sorts.terminals.known s' hs'

theorem Took.exists_nonTerminal_id (h : b.Took ds) (hs : Declares ds (.nonTerminal s)) :
    ∃ id, b.table.id? s = some id := by
  obtain ⟨s', hs', hsame⟩ := declares_nonTerminal_iff.1 hs
  rw [← SymbolTable.id?_congr hsame]
  exact h.sorts.nonTerminals.known s' hs'

theorem Took.known_iff (h : b.Took ds) (hid : b.table.id? s = some id) :
    (id ∈ b.nonTerminals ∨ id ∈ b.terminals) ↔ Known ds s :=
  or_congr (h.mem_nonTerminals_iff hid) (h.mem_terminals_iff hid)

theorem Took.ambiguous?_eq_none_iff (h : b.Took ds) : b.ambiguous? = none ↔ ∀ s, ¬Ambiguous ds s := by
  rw [Builder.ambiguous?_eq_none_iff h.bounded]
  constructor
  · rintro hids s ⟨hterminal, hnonTerminal⟩
    obtain ⟨id, hid⟩ := h.exists_terminal_id hterminal
    exact hids id ((h.mem_terminals_iff hid).2 hterminal) ((h.mem_nonTerminals_iff hid).2 hnonTerminal)
  · intro hds id hterminal hnonTerminal
    obtain ⟨s, -, hid⟩ := (h.sorts.terminals.mem_iff id).1 hterminal
    exact hds s ⟨(h.mem_terminals_iff hid).1 hterminal, (h.mem_nonTerminals_iff hid).1 hnonTerminal⟩

omit [EquivBEq σ] [LawfulHashable σ] in
theorem Records.start_eq_some_iff (h : b.Records ds) {start : Nat} :
    b.start = some start ↔ ∃ s, start? ds = some s ∧ b.table.id? s = some start := by
  rw [← Option.map_eq_some_iff, ← h.start, Option.map_eq_some_iff]
  simp

theorem Took.fits_iff (h : b.Took ds) {p : Production} {declared : σ × List σ} (hp : Matches b.table p declared) :
    (p.lhs ∈ b.nonTerminals ∧ ∀ id ∈ p.rhs, id ∈ b.nonTerminals ∨ id ∈ b.terminals) ↔ Fits ds declared :=
  and_congr (h.mem_nonTerminals_iff hp.1) (hp.2.forall_iff fun _ _ hid => h.known_iff hid)

theorem Took.productions_iff (h : b.Took ds) :
    (∀ p ∈ b.productions, p.lhs ∈ b.nonTerminals ∧ ∀ id ∈ p.rhs, id ∈ b.nonTerminals ∨ id ∈ b.terminals) ↔
      ∀ declared ∈ Declaration.productions ds, Fits ds declared := by
  obtain ⟨hnumbers, hsymbols⟩ := exists_of_forall₂ h.records.productions
  constructor
  · intro hall declared hdeclared
    obtain ⟨p, hp, hmatches⟩ := hsymbols declared hdeclared
    exact (h.fits_iff hmatches).1 (hall p (Array.mem_def.2 hp))
  · intro hall p hp
    obtain ⟨declared, hdeclared, hmatches⟩ := hnumbers p (Array.mem_def.1 hp)
    exact (h.fits_iff hmatches).2 (hall declared hdeclared)

end Lawful

end Builder

/-- **When declarations make a grammar**: the start symbol marked last is a non-terminal, no symbol is of both kinds,
and all productions go with the declarations. -/
theorem exists_ofDeclarations_iff_fits [Written σ] [EquivBEq σ] [LawfulHashable σ] :
    (∃ g, ofDeclarations ds = .ok g) ↔ (∃ s, start? ds = some s ∧ Declares ds (.nonTerminal s)) ∧
      (∀ s, ¬Ambiguous ds s) ∧ ∀ p ∈ productions ds, Fits ds p := by
  have h : (Builder.empty.declareAll ds).Took ds := Builder.took_declareAll ds
  simp only [ofDeclarations, Builder.build_eq_ok_iff, Builder.fault?_eq_none_iff, h.ambiguous?_eq_none_iff,
    h.records.start_eq_some_iff, h.productions_iff]
  constructor
  · rintro ⟨_, start, ⟨s, hs, hid⟩, ⟨hclear, hstart, hproductions⟩, rfl⟩
    exact ⟨⟨s, hs, (h.mem_nonTerminals_iff hid).1 hstart⟩, hclear, hproductions⟩
  · rintro ⟨⟨s, hs, hstart⟩, hclear, hproductions⟩
    obtain ⟨id, hid⟩ := h.exists_nonTerminal_id hstart
    exact ⟨_, id, ⟨s, hs, hid⟩, ⟨hclear, (h.mem_nonTerminals_iff hid).2 hstart, hproductions⟩, rfl⟩

end Grammar

end CfgMembership
