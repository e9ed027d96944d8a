/-
Which symbols a builder takes for terminals and which for non-terminals.

`SymbolTable.Marks t ids P`: a set of numbers holds those of the symbols with a property. The two sets of a builder mark
the symbols that were declared of each kind (`Builder.Sorts`), wherever a symbol was first mentioned.
-/
import CfgMembership.Proofs.Grammar.Declared

namespace CfgMembership

variable {σ : Type}

/-- the symbols of a declaration in the order in which they are written -/
def Declaration.mentions : Declaration σ → List σ
  | .terminal s | .nonTerminal s | .start s => [s]
  | .production lhs rhs => lhs :: rhs

/-! ## Marked symbols -/

namespace SymbolTable

variable [BEq σ] [Hashable σ] {t t' : SymbolTable σ} {ids : Std.HashSet Nat} {P Q : σ → Prop} {s : σ} {id : Nat}

/-- a set of numbers holds those of the symbols with a property -/
structure Marks (t : SymbolTable σ) (ids : Std.HashSet Nat) (P : σ → Prop) : Prop where
  known : ∀ s, P s → ∃ id, t.id? s = some id
  mem_iff : ∀ id, id ∈ ids ↔ ∃ s, P s ∧ t.id? s = some id

theorem marks_empty : t.Marks ∅ fun _ => False where
  known := by simp
  mem_iff := by simp

theorem Marks.of_keeps (h : t.Marks ids P) (hkeeps : Keeps t t') : t'.Marks ids P where
  known s hs := by
    obtain ⟨id, hid⟩ := h.known s hs
    exact ⟨id, hkeeps s id hid⟩
  mem_iff id := by
    rw [h.mem_iff]
    refine exists_congr fun s => and_congr_right fun hs => ⟨hkeeps s id, fun hid => ?_⟩
    obtain ⟨id', hid'⟩ := h.known s hs
    have hsame := hkeeps s id' hid'
    rw [hid, Option.some.injEq] at hsame
    rw [hid', hsame]

theorem Marks.congr (h : t.Marks ids P) (hiff : ∀ s, Q s ↔ P s) : t.Marks ids Q := by
  rwa [show Q = P from funext fun s => propext (hiff s)]

theorem Marks.insert (h : t.Marks ids P) (hid : t.id? s = some id) : t.Marks (ids.insert id) fun s' => P s' ∨ s' = s where
  known s' hs' := by
    rcases hs' with hs' | rfl
    · exact h.known s' hs'
    · exact ⟨id, hid⟩
  mem_iff id' := by
    rw [Std.HashSet.mem_insert, beq_iff_eq, h.mem_iff]
    constructor
    · rintro (rfl | ⟨s', hs', hid'⟩)
      · exact ⟨s, .inr rfl, hid⟩
      · exact ⟨s', .inl hs', hid'⟩
    · rintro ⟨s', hs' | rfl, hid'⟩
      · exact .inr ⟨s', hs', hid'⟩
      · exact .inl (Option.some.inj (hid.symm.trans hid'))

theorem Marks.mem_iff_of_faithful [EquivBEq σ] [LawfulHashable σ] (h : t.Marks ids P) (ht : t.Faithful)
    (hid : t.id? s = some id) : id ∈ ids ↔ ∃ s', P s' ∧ s' == s := by
  rw [h.mem_iff]
  refine exists_congr fun s' => and_congr_right fun _ => ⟨fun hid' => ht s' s id hid' hid, fun hsame => ?_⟩
  rw [id?_congr hsame, hid]

end SymbolTable

namespace Grammar

namespace Builder

variable [BEq σ] [Hashable σ] {b : Builder σ} {ds : List (Declaration σ)}

/-- only the symbols of a declaration are interned, from left to right -/
theorem table_declare (b : Builder σ) (d : Declaration σ) : (b.declare d).table = (b.table.internAll d.mentions).2 := by
  cases d <;> rfl

/-! ## Kinds -/

/-- the sets of a builder hold the symbols that were declared of each kind -/
structure Sorts (b : Builder σ) (ds : List (Declaration σ)) : Prop where
  terminals : b.table.Marks b.terminals (Declaration.terminal · ∈ ds)
  nonTerminals : b.table.Marks b.nonTerminals (Declaration.nonTerminal · ∈ ds)

theorem sorts_empty : (empty : Builder σ).Sorts [] where
  terminals := SymbolTable.marks_empty.congr (by simp)
  nonTerminals := SymbolTable.marks_empty.congr (by simp)

section Run

variable [EquivBEq σ] [LawfulHashable σ]

theorem Sorts.declare (h : b.Sorts ds) (d : Declaration σ) : (b.declare d).Sorts (ds ++ [d]) := by
  have hkeeps : SymbolTable.Keeps b.table (b.declare d).table := by
    rw [table_declare]
    exact SymbolTable.keeps_internAll b.table d.mentions
  have hterminals := h.terminals.of_keeps hkeeps
  have hnonTerminals := h.nonTerminals.of_keeps hkeeps
  cases d with
  | terminal s =>
    exact ⟨(hterminals.insert (SymbolTable.id?_intern_self b.table s)).congr (by simp), hnonTerminals.congr (by simp)⟩
  | nonTerminal s =>
    exact ⟨hterminals.congr (by simp), (hnonTerminals.insert (SymbolTable.id?_intern_self b.table s)).congr (by simp)⟩
  | start s => exact ⟨hterminals.congr (by simp), hnonTerminals.congr (by simp)⟩
  | production lhs rhs => exact ⟨hterminals.congr (by simp), hnonTerminals.congr (by simp)⟩

theorem Sorts.declareAll (h : b.Sorts ds) (more : List (Declaration σ)) : (b.declareAll more).Sorts (ds ++ more) := by
  induction more generalizing b ds with
  | nil => rwa [List.append_nil]
  | cons d more ih =>
    have := ih (h.declare d)
    rwa [List.append_assoc] at this

end Run

end Builder

end Grammar

end CfgMembership
