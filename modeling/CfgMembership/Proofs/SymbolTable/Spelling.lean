/-
How a symbol table writes its symbols.

Symbols may be equal and yet written differently. Of equal symbols a table keeps the one that it saw first: a symbol has
the number of the kept symbol that equals it (`Indexed`), and the kept symbols, in the order of their numbers, are those
mentioned without the later ones of equal symbols (`KeepsFirst`). The kept symbol is therefore the first mention
(`KeepsFirst.symbol?_eq`).
-/
import CfgMembership.Proofs.SymbolTable

namespace CfgMembership.SymbolTable

variable {σ : Type} [BEq σ] [Hashable σ] {t : SymbolTable σ} {s s' : σ} {id : Nat} {mentions : List σ}

/-- a symbol has the number under which one that equals it is kept -/
def Indexed (t : SymbolTable σ) : Prop := ∀ s id, t.id? s = some id ↔ ∃ kept, t.symbol? id = some kept ∧ kept == s

/-- what holds of all symbols that equal one another is found first at the same symbol, whether among the kept symbols or
among those mentioned -/
def KeepsFirst (t : SymbolTable σ) (mentions : List σ) : Prop :=
  ∀ P : σ → Bool, (∀ s s', s == s' → P s = P s') → t.symbols.toList.find? P = mentions.find? P

theorem indexed_empty : (empty : SymbolTable σ).Indexed := by
  intro s id
  simp [empty, id?, symbol?]

theorem keepsFirst_empty : (empty : SymbolTable σ).KeepsFirst [] := fun _ _ => rfl

/-! ## Looking up -/

theorem symbol?_eq_some_iff : t.symbol? id = some s ↔ t.symbols.toList[id]? = some s := by
  rw [Array.getElem?_toList, symbol?]

theorem Indexed.exists_symbol (h : t.Indexed) (hid : t.id? s = some id) : ∃ kept, t.symbol? id = some kept ∧ kept == s :=
  (h s id).1 hid

theorem Indexed.id?_of_symbol? [EquivBEq σ] (h : t.Indexed) (hs : t.symbol? id = some s) : t.id? s = some id :=
  (h s id).2 ⟨s, hs, BEq.rfl⟩

/-- equal symbols are not kept twice -/
theorem Indexed.eq_of_beq [EquivBEq σ] [LawfulHashable σ] (h : t.Indexed) {id' : Nat} (hs : t.symbol? id = some s)
    (hs' : t.symbol? id' = some s') (hsame : s == s') : id = id' := by
  have hid := h.id?_of_symbol? hs
  rw [id?_congr hsame, h.id?_of_symbol? hs', Option.some.injEq] at hid
  exact hid.symm

theorem intern_of_some (h : t.id? s = some id) : t.intern s = (id, t) := by
  simp [SymbolTable.intern, h]

theorem symbols_intern_of_none (h : t.id? s = none) : (t.intern s).2.symbols = t.symbols.push s := by
  simp [SymbolTable.intern, h]

section Lawful

variable [EquivBEq σ] [LawfulHashable σ]

/-- the kept symbol is the first one mentioned that equals it -/
theorem KeepsFirst.symbol?_eq (h : t.KeepsFirst mentions) (ht : t.Indexed) (hid : t.id? s = some id) :
    t.symbol? id = mentions.find? (· == s) := by
  obtain ⟨kept, hkept, hsame⟩ := ht.exists_symbol hid
  have hrespects : ∀ a b, a == b → (a == s) = (b == s) := fun a b hab => BEq.congr_left hab
  rw [← h _ hrespects, hkept, eq_comm, List.find?_eq_some_iff_getElem]
  obtain ⟨hlt, hget⟩ := List.getElem?_eq_some_iff.1 (symbol?_eq_some_iff.1 hkept)
  refine ⟨hsame, id, hlt, hget, fun j hj => ?_⟩
  -- an earlier symbol that equals it would have another number
  rw [Bool.not_eq_true', ← Bool.not_eq_true]
  intro hj'
  have hjs : t.symbol? j = some _ := symbol?_eq_some_iff.2 (List.getElem?_eq_getElem (Nat.lt_trans hj hlt))
  have : j = id := ht.eq_of_beq hjs hkept (BEq.trans hj' (BEq.symm hsame))
  omega

/-! ## Adding symbols -/

theorem Indexed.intern (h : t.Indexed) (s : σ) : (t.intern s).2.Indexed := by
  intro s' id
  cases hs : t.id? s with
  | some old =>
    rw [intern_of_some hs]
    exact h s' id
  | none =>
    have hnumber : (t.intern s).1 = t.size := by simp [SymbolTable.intern, hs]
    rw [id?_intern, hnumber]
    simp only [symbol?, symbols_intern_of_none hs, Array.getElem?_push]
    have hold := h s' id
    unfold symbol? at hold
    by_cases hid : id = t.symbols.size
    · subst hid
      rw [if_pos rfl]
      by_cases hsame : s == s'
      · simp [hsame, size]
      · have hfresh : t.id? s' ≠ some t.symbols.size := by simp [hold]
        simp [hsame, hfresh]
    · rw [if_neg hid, ← hold]
      by_cases hsame : s == s'
      · rw [if_pos hsame, ← id?_congr hsame, hs]
        simpa [size] using Ne.symm hid
      · rw [if_neg hsame]

omit [EquivBEq σ] [LawfulHashable σ] in
theorem KeepsFirst.intern (h : t.KeepsFirst mentions) (ht : t.Indexed) (s : σ) :
    (t.intern s).2.KeepsFirst (mentions ++ [s]) := by
  intro P hP
  rw [List.find?_append, ← h P hP]
  cases hs : t.id? s with
  | none => rw [symbols_intern_of_none hs, Array.toList_push, List.find?_append]
  | some id =>
    rw [intern_of_some hs]
    obtain ⟨kept, hkept, hsame⟩ := ht.exists_symbol hs
    have hmem : kept ∈ t.symbols.toList := List.mem_of_getElem? (symbol?_eq_some_iff.1 hkept)
    cases hfind : t.symbols.toList.find? P with
    | some first => rfl
    | none =>
      -- the symbol that is kept for it has not the property, and so it has not either
      have hnot : P s = false := by
        rw [← hP kept s hsame]
        simpa using List.find?_eq_none.1 hfind kept hmem
      simp [hnot]

theorem Indexed.internAll (h : t.Indexed) (more : List σ) : (t.internAll more).2.Indexed := by
  induction more generalizing t with
  | nil => exact h
  | cons s more ih => exact ih (h.intern s)

theorem KeepsFirst.internAll (h : t.KeepsFirst mentions) (ht : t.Indexed) (more : List σ) :
    (t.internAll more).2.KeepsFirst (mentions ++ more) := by
  induction more generalizing t mentions with
  | nil => rwa [List.append_nil]
  | cons s more ih =>
    have := ih (h.intern ht s) (ht.intern s)
    rwa [List.append_assoc] at this

end Lawful

end CfgMembership.SymbolTable
