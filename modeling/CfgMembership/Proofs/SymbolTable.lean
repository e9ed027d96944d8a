/-
What a symbol table keeps while symbols are added.

Symbols are numbered without gaps from zero on, so that the size of the table is a number that no symbol has
(`Bounded`), and symbols with one number are equal (`Faithful`). A number once given stays (`Keeps`).
-/
import Std.Data.HashMap.Lemmas
import CfgMembership.SymbolTable

namespace CfgMembership.SymbolTable

variable {σ : Type} [BEq σ] [Hashable σ] {t : SymbolTable σ}

def Bounded (t : SymbolTable σ) : Prop := ∀ s id, t.id? s = some id → id < t.size

theorem bounded_empty : (empty : SymbolTable σ).Bounded := by
  intro s id h
  simp [empty, id?] at h

theorem size_le_intern (t : SymbolTable σ) (s : σ) : t.size ≤ (t.intern s).2.size := by
  unfold intern
  split
  · exact Nat.le_refl _
  · simp [size]

theorem size_le_internAll (t : SymbolTable σ) (symbols : List σ) : t.size ≤ (t.internAll symbols).2.size := by
  induction symbols generalizing t with
  | nil => exact Nat.le_refl _
  | cons s symbols ih => exact Nat.le_trans (size_le_intern t s) (ih (t.intern s).2)

theorem Bounded.intern_lt (h : t.Bounded) (s : σ) : (t.intern s).1 < (t.intern s).2.size := by
  unfold intern
  split
  · rename_i id hid
    exact h s id hid
  · simp [size]

variable [EquivBEq σ] [LawfulHashable σ]

theorem Bounded.intern (h : t.Bounded) (s : σ) : (t.intern s).2.Bounded := by
  unfold SymbolTable.intern
  split
  · exact h
  · intro s' id hid
    simp only [id?, Std.HashMap.getElem?_insert] at hid
    simp only [size, Array.size_push]
    split at hid
    · cases hid
      exact Nat.lt_succ_self _
    · exact Nat.lt_succ_of_lt (h s' id hid)

theorem Bounded.internAll (h : t.Bounded) (symbols : List σ) : (t.internAll symbols).2.Bounded := by
  induction symbols generalizing t with
  | nil => exact h
  | cons s symbols ih => exact ih (h.intern s)

theorem Bounded.internAll_lt (h : t.Bounded) (symbols : List σ) :
    ∀ id ∈ (t.internAll symbols).1, id < (t.internAll symbols).2.size := by
  induction symbols generalizing t with
  | nil => simp [SymbolTable.internAll]
  | cons s symbols ih =>
    intro id hid
    rcases List.mem_cons.1 hid with rfl | hid
    · exact Nat.lt_of_lt_of_le (h.intern_lt s) (size_le_internAll _ symbols)
    · exact ih (h.intern s) id hid

/-! ## Numbers stay -/

theorem id?_congr {s s' : σ} (h : s == s') : t.id? s = t.id? s' := Std.HashMap.getElem?_congr h

/-- after a symbol is numbered, its number is found for all that equal it -/
theorem id?_intern (t : SymbolTable σ) (s s' : σ) :
    (t.intern s).2.id? s' = if s == s' then some (t.intern s).1 else t.id? s' := by
  unfold SymbolTable.intern
  split
  · rename_i id hid
    split
    · rename_i hsame
      rw [← id?_congr hsame, hid]
    · rfl
  · exact Std.HashMap.getElem?_insert

/-- the numbers of one table are the numbers of the other -/
def Keeps (t t' : SymbolTable σ) : Prop := ∀ s id, t.id? s = some id → t'.id? s = some id

omit [EquivBEq σ] [LawfulHashable σ] in
theorem Keeps.refl (t : SymbolTable σ) : Keeps t t := fun _ _ h => h

omit [EquivBEq σ] [LawfulHashable σ] in
theorem Keeps.trans {t t' t'' : SymbolTable σ} (h : Keeps t t') (h' : Keeps t' t'') : Keeps t t'' :=
  fun s id hid => h' s id (h s id hid)

theorem keeps_intern (t : SymbolTable σ) (s : σ) : Keeps t (t.intern s).2 := by
  intro s' id hid
  rw [id?_intern]
  split
  · rename_i hsame
    rw [← id?_congr hsame] at hid
    simp [SymbolTable.intern, hid]
  · exact hid

theorem keeps_internAll (t : SymbolTable σ) (symbols : List σ) : Keeps t (t.internAll symbols).2 := by
  induction symbols generalizing t with
  | nil => exact Keeps.refl t
  | cons s symbols ih => exact (keeps_intern t s).trans (ih (t.intern s).2)

theorem id?_intern_self (t : SymbolTable σ) (s : σ) : (t.intern s).2.id? s = some (t.intern s).1 := by
  rw [id?_intern, if_pos BEq.rfl]

/-! ## Forms in symbols and by numbers -/

/-- a form in symbols, and the same by numbers -/
def Encodes (t : SymbolTable σ) (form : List σ) (ids : List Nat) : Prop := form.map t.id? = ids.map some

section Encodes

omit [EquivBEq σ] [LawfulHashable σ]

variable {t' : SymbolTable σ} {s : σ} {form before after : List σ} {id : Nat} {ids : List Nat}

@[simp] theorem encodes_nil : t.Encodes [] [] := rfl

@[simp] theorem encodes_cons : t.Encodes (s :: form) (id :: ids) ↔ t.id? s = some id ∧ t.Encodes form ids := by
  simp [Encodes]

theorem Encodes.of_keeps (h : t.Encodes form ids) (hkeeps : Keeps t t') : t'.Encodes form ids := by
  induction form generalizing ids with
  | nil => exact h
  | cons s form ih =>
    cases ids with
    | nil => simp [Encodes] at h
    | cons id ids =>
      obtain ⟨hs, hform⟩ := encodes_cons.1 h
      exact encodes_cons.2 ⟨hkeeps s id hs, ih hform⟩

theorem Encodes.append {ids' : List Nat} (h : t.Encodes before ids) (h' : t.Encodes after ids') :
    t.Encodes (before ++ after) (ids ++ ids') := by
  unfold Encodes at h h' ⊢
  rw [List.map_append, List.map_append, h, h']

theorem Encodes.unique {ids' : List Nat} (h : t.Encodes form ids) (h' : t.Encodes form ids') : ids = ids' :=
  (List.map_inj_right fun _ _ => Option.some.inj).1 (h.symm.trans h')

theorem encodes_filterMap (h : ∀ s ∈ form, ∃ id, t.id? s = some id) : t.Encodes form (form.filterMap t.id?) := by
  induction form with
  | nil => exact encodes_nil
  | cons s form ih =>
    obtain ⟨id, hid⟩ := h s List.mem_cons_self
    rw [List.filterMap_cons_some hid]
    exact encodes_cons.2 ⟨hid, ih fun s' hs' => h s' (List.mem_cons_of_mem s hs')⟩

/-- what a property of numbers says of symbols, it says of forms -/
theorem Encodes.forall_iff {P : σ → Prop} {Q : Nat → Prop} (h : t.Encodes form ids)
    (hiff : ∀ s id, t.id? s = some id → (Q id ↔ P s)) : (∀ id ∈ ids, Q id) ↔ ∀ s ∈ form, P s := by
  induction form generalizing ids with
  | nil =>
    obtain rfl := List.map_eq_nil_iff.1 h.symm
    simp
  | cons s form ih =>
    cases ids with
    | nil => simp [Encodes] at h
    | cons id ids =>
      obtain ⟨hs, hform⟩ := encodes_cons.1 h
      rw [List.forall_mem_cons, List.forall_mem_cons, hiff s id hs, ih hform]

/-- a form that falls into parts does so by numbers -/
theorem Encodes.split (h : t.Encodes (before ++ s :: after) ids) :
    ∃ front id back, ids = front ++ id :: back ∧ t.Encodes before front ∧ t.id? s = some id ∧ t.Encodes after back := by
  unfold Encodes at h
  rw [List.map_append, List.map_cons] at h
  obtain ⟨front, rest, rfl, hfront, hrest⟩ := List.map_eq_append_iff.1 h.symm
  obtain ⟨id, back, rfl, hid, hback⟩ := List.map_eq_cons_iff.1 hrest
  exact ⟨front, id, back, rfl, hfront.symm, hid.symm, hback.symm⟩

/-- numbers that fall into parts do so as symbols -/
theorem Encodes.split_ids {front back : List Nat} (h : t.Encodes form (front ++ id :: back)) :
    ∃ before s after, form = before ++ s :: after ∧ t.Encodes before front ∧ t.id? s = some id ∧
      t.Encodes after back := by
  unfold Encodes at h
  rw [List.map_append, List.map_cons] at h
  obtain ⟨before, rest, rfl, hbefore, hrest⟩ := List.map_eq_append_iff.1 h
  obtain ⟨s, after, rfl, hs, hafter⟩ := List.map_eq_cons_iff.1 hrest
  exact ⟨before, s, after, rfl, hbefore, hs, hafter⟩

end Encodes

theorem encodes_internAll (t : SymbolTable σ) (symbols : List σ) :
    (t.internAll symbols).2.Encodes symbols (t.internAll symbols).1 := by
  induction symbols generalizing t with
  | nil => exact encodes_nil
  | cons s symbols ih =>
    have hs := keeps_internAll (t.intern s).2 symbols s _ (id?_intern_self t s)
    exact encodes_cons.2 ⟨hs, ih (t.intern s).2⟩

/-! ## Symbols with one number are equal -/

/-- symbols with one number are equal -/
def Faithful (t : SymbolTable σ) : Prop := ∀ s s' id, t.id? s = some id → t.id? s' = some id → s == s'

omit [EquivBEq σ] [LawfulHashable σ] in
theorem faithful_empty : (empty : SymbolTable σ).Faithful := by
  intro s s' id h
  simp [empty, id?] at h

theorem Faithful.intern (h : t.Faithful) (hbounded : t.Bounded) (s : σ) : (t.intern s).2.Faithful := by
  cases hid : t.id? s with
  | some id =>
    have : (t.intern s).2 = t := by simp [SymbolTable.intern, hid]
    rwa [this]
  | none =>
    have hnew : (t.intern s).1 = t.size := by simp [SymbolTable.intern, hid]
    -- the new number belongs to no symbol of the old table
    have hfresh (s' : σ) : t.id? s' ≠ some t.size := fun hs' => Nat.lt_irrefl _ (hbounded s' _ hs')
    intro a b id ha hb
    rw [id?_intern, hnew] at ha hb
    split at ha <;> split at hb
    · rename_i hsa hsb
      exact BEq.trans (BEq.symm hsa) hsb
    · cases ha
      exact absurd hb (hfresh b)
    · cases hb
      exact absurd ha (hfresh a)
    · exact h a b id ha hb

theorem Faithful.internAll (h : t.Faithful) (hbounded : t.Bounded) (symbols : List σ) :
    (t.internAll symbols).2.Faithful := by
  induction symbols generalizing t with
  | nil => exact h
  | cons s symbols ih => exact ih (h.intern hbounded s) (hbounded.intern s)

/-- forms that are equal symbol by symbol have the same numbers -/
theorem map_id?_congr {form form' : List σ} (hsame : form == form') : form.map t.id? = form'.map t.id? := by
  induction form generalizing form' with
  | nil =>
    cases form' with
    | nil => rfl
    | cons => cases hsame
  | cons s form ih =>
    cases form' with
    | nil => cases hsame
    | cons s' form' =>
      rw [List.cons_beq_cons, Bool.and_eq_true] at hsame
      rw [List.map_cons, List.map_cons, id?_congr hsame.1, ih hsame.2]

theorem Encodes.congr {form form' : List σ} {ids : List Nat} (h : t.Encodes form' ids) (hsame : form == form') :
    t.Encodes form ids :=
  (map_id?_congr hsame).trans h

omit [EquivBEq σ] [LawfulHashable σ] in
/-- forms with the same numbers are equal symbol by symbol -/
theorem Encodes.beq (h : t.Faithful) {form form' : List σ} {ids : List Nat} (hform : t.Encodes form ids)
    (hform' : t.Encodes form' ids) : form == form' := by
  induction ids generalizing form form' with
  | nil =>
    obtain rfl := List.map_eq_nil_iff.1 hform
    obtain rfl := List.map_eq_nil_iff.1 hform'
    rfl
  | cons id ids ih =>
    obtain ⟨s, form, rfl, hs, hform⟩ := List.map_eq_cons_iff.1 hform
    obtain ⟨s', form', rfl, hs', hform'⟩ := List.map_eq_cons_iff.1 hform'
    rw [List.cons_beq_cons, Bool.and_eq_true]
    exact ⟨h s s' id hs hs', ih hform hform'⟩

/-! ## Numbers in the order of first use -/

section Lists

omit [EquivBEq σ] [LawfulHashable σ]

variable {symbols : List σ} {s : σ} {id : Nat}

/-- a table lists symbols in order: the number of a symbol is its position, and no other symbol has a number -/
structure Lists (t : SymbolTable σ) (symbols : List σ) : Prop where
  toList : t.symbols.toList = symbols
  id? : ∀ s id, t.id? s = some id ↔ symbols[id]? = some s

theorem lists_empty : (empty : SymbolTable σ).Lists [] where
  toList := rfl
  id? s id := by simp [empty, SymbolTable.id?]

theorem Lists.size_eq (h : t.Lists symbols) : t.size = symbols.length := by
  rw [← h.toList, Array.length_toList, size]

theorem Lists.exists_id (h : t.Lists symbols) (hs : s ∈ symbols) : ∃ id, t.id? s = some id := by
  obtain ⟨id, hid⟩ := List.getElem?_of_mem hs
  exact ⟨id, (h.id? s id).2 hid⟩

theorem Lists.mem (h : t.Lists symbols) (hid : t.id? s = some id) : s ∈ symbols :=
  List.mem_of_getElem? ((h.id? s id).1 hid)

variable [LawfulBEq σ]

/-- a symbol interned is listed once, where it was first seen -/
theorem Lists.intern (h : t.Lists symbols.eraseDups) (s : σ) : (t.intern s).2.Lists (symbols ++ [s]).eraseDups := by
  unfold SymbolTable.intern
  split
  · rename_i id hid
    have hs : s ∈ symbols := List.mem_eraseDups.1 (h.mem hid)
    have hsame : (symbols ++ [s]).eraseDups = symbols.eraseDups := by
      simp [List.eraseDups_append, List.removeAll, hs]
    rwa [hsame]
  · rename_i hnone
    have hs : s ∉ symbols := by
      intro hs
      obtain ⟨id, hid⟩ := h.exists_id (List.mem_eraseDups.2 hs)
      rw [hnone] at hid
      cases hid
    have hnew : (symbols ++ [s]).eraseDups = symbols.eraseDups ++ [s] := by
      simp [List.eraseDups_append, List.removeAll, hs, List.eraseDups_cons]
    rw [hnew]
    refine ⟨by simp [h.toList], fun s' id => ?_⟩
    have hold : t.ids[s']? = some id ↔ symbols.eraseDups[id]? = some s' := h.id? s' id
    simp only [SymbolTable.id?, Std.HashMap.getElem?_insert, h.size_eq, List.getElem?_append]
    by_cases hsame : s = s'
    · subst hsame
      have hnot : symbols.eraseDups[id]? ≠ some s := fun hid => hs (List.mem_eraseDups.1 (List.mem_of_getElem? hid))
      rw [if_pos BEq.rfl, Option.some.injEq]
      split
      · rename_i hlt
        exact iff_of_false (Nat.ne_of_gt hlt) hnot
      · rw [List.getElem?_singleton]
        split
        · simp only [iff_true]
          omega
        · simp only [reduceCtorEq, iff_false]
          omega
    · simp only [beq_eq_false_iff_ne.2 hsame, Bool.false_eq_true, if_false, hold]
      split
      · exact Iff.rfl
      · rename_i hge
        rw [List.getElem?_eq_none (Nat.not_lt.1 hge), List.getElem?_singleton]
        simp [hsame]

theorem Lists.internAll (h : t.Lists symbols.eraseDups) (more : List σ) :
    (t.internAll more).2.Lists (symbols ++ more).eraseDups := by
  induction more generalizing t symbols with
  | nil => rwa [List.append_nil]
  | cons s more ih =>
    have := ih (h.intern s)
    rwa [List.append_assoc] at this

end Lists

end CfgMembership.SymbolTable
