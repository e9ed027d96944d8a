/-
From the numbers of one symbol table to those of another.

Two tables that saw the same symbols may number them in different orders. `renumber` leads from the number of a symbol in
one table to its number in the other, and from the size of the one, which is the number of no symbol, to the size of the
other. Numbers with a counterpart (`Shared`) come back when they are renumbered there and back, and stand for equal symbols.
-/
import CfgMembership.Proofs.SymbolTable.Spelling

namespace CfgMembership.SymbolTable

variable {σ : Type} [BEq σ] [Hashable σ] {t t' : SymbolTable σ} {s : σ} {id id' : Nat}

/-- the number in another table of the symbol with a number -/
def renumber (t t' : SymbolTable σ) (id : Nat) : Nat := ((t.symbol? id).bind t'.id?).getD t'.size

/-- a number that both tables have a symbol for, or the size -/
inductive Shared (t t' : SymbolTable σ) : Nat → Prop where
  | size : Shared t t' t.size
  | symbol {s : σ} {id id' : Nat} (here : t.id? s = some id) (there : t'.id? s = some id') : Shared t t' id

theorem symbol?_size (t : SymbolTable σ) : t.symbol? t.size = none := Array.getElem?_size

@[simp] theorem renumber_size (t t' : SymbolTable σ) : t.renumber t' t.size = t'.size := by
  simp [renumber, symbol?_size]

variable [EquivBEq σ] [LawfulHashable σ]

theorem Indexed.renumber_eq (h : t.Indexed) (here : t.id? s = some id) (there : t'.id? s = some id') :
    t.renumber t' id = id' := by
  obtain ⟨kept, hkept, hsame⟩ := h.exists_symbol here
  rw [renumber, hkept, Option.bind_some, id?_congr hsame, there, Option.getD_some]

/-- numbers come back -/
theorem Shared.renumber_renumber (h : t.Shared t' id) (ht : t.Indexed) (ht' : t'.Indexed) :
    t'.renumber t (t.renumber t' id) = id := by
  cases h with
  | size => simp
  | symbol here there => rw [ht.renumber_eq here there, ht'.renumber_eq there here]

/-- a number and its counterpart stand for equal symbols, or both for none -/
theorem Shared.symbol?_beq (h : t.Shared t' id) (ht : t.Indexed) (ht' : t'.Indexed) :
    t.symbol? id == t'.symbol? (t.renumber t' id) := by
  cases h with
  | size =>
    rw [renumber_size, symbol?_size, symbol?_size]
    rfl
  | symbol here there =>
    obtain ⟨kept, hkept, hsame⟩ := ht.exists_symbol here
    obtain ⟨kept', hkept', hsame'⟩ := ht'.exists_symbol there
    rw [ht.renumber_eq here there, hkept, hkept', Option.some_beq_some]
    exact BEq.trans hsame (BEq.symm hsame')

/-- a form renumbered is the same form in the other table -/
theorem Encodes.map_renumber {form : List σ} {ids ids' : List Nat} (h : t.Encodes form ids) (h' : t'.Encodes form ids')
    (ht : t.Indexed) : ids.map (t.renumber t') = ids' := by
  induction form generalizing ids ids' with
  | nil =>
    obtain rfl := List.map_eq_nil_iff.1 h.symm
    obtain rfl := List.map_eq_nil_iff.1 h'.symm
    rfl
  | cons s form ih =>
    obtain ⟨id, ids, rfl, hid, hids⟩ := List.map_eq_cons_iff.1 h.symm
    obtain ⟨id', ids', rfl, hid', hids'⟩ := List.map_eq_cons_iff.1 h'.symm
    rw [List.map_cons, ht.renumber_eq hid.symm hid'.symm, ih hids.symm hids'.symm]

/-- forms of shared numbers come back -/
theorem map_renumber_renumber {ids : List Nat} (h : ∀ id ∈ ids, t.Shared t' id) (ht : t.Indexed) (ht' : t'.Indexed) :
    (ids.map (t.renumber t')).map (t'.renumber t) = ids := by
  rw [List.map_map]
  exact (List.map_congr_left fun id hid => (h id hid).renumber_renumber ht ht').trans (List.map_id' ids)

/-- forms of shared numbers stand for forms that are equal symbol by symbol -/
theorem map_symbol?_beq {ids : List Nat} (h : ∀ id ∈ ids, t.Shared t' id) (ht : t.Indexed) (ht' : t'.Indexed) :
    ids.map t.symbol? == (ids.map (t.renumber t')).map t'.symbol? := by
  induction ids with
  | nil => rfl
  | cons id ids ih =>
    rw [List.map_cons, List.map_cons, List.map_cons, List.cons_beq_cons, Bool.and_eq_true]
    exact ⟨(h id List.mem_cons_self).symbol?_beq ht ht', ih fun id' hid' => h id' (List.mem_cons_of_mem id hid')⟩

end CfgMembership.SymbolTable
