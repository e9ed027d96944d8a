/-
A symbol table after any operations.

`Operation` is what can be asked of a table, and `run` the table after a list of operations. The two parts of a table stay in
step: it keeps the symbols that were interned, in order and without the later ones of equal symbols, and a symbol has a number
just when the symbol kept under that number equals it (`Tracks`, by `tracks_run`). An operation gives numbers only to symbols
that had none (`keeps_run`), and adds symbols only after those that are kept (`symbols_isPrefix_run`).

`numbered_run` puts that together for every history that begins with the empty table. Symbols are compared by `==` throughout,
as they may be equal and yet written differently.
-/
import Mathlib.Data.List.Induction
import Mathlib.Tactic.Set
import CfgMembership.Proofs.SymbolTable.Spelling

namespace CfgMembership.SymbolTable

/-- an operation on a symbol table: to number a symbol, to look up a number or a symbol, to ask for the size -/
inductive Operation (σ : Type) where
  | intern (s : σ)
  | id? (s : σ)
  | symbol? (id : Nat)
  | size
  deriving Repr

/-- the symbol that an operation numbers -/
def Operation.interned? {σ : Type} : Operation σ → Option σ
  | .intern s => some s
  | _ => none

def interned {σ : Type} (history : List (Operation σ)) : List σ := history.filterMap Operation.interned?

variable {σ : Type} [BEq σ] [Hashable σ] {t : SymbolTable σ} {s : σ} {id : Nat} {seen : List σ}

def step (t : SymbolTable σ) : Operation σ → SymbolTable σ
  | .intern s => (t.intern s).2
  | .id? _ | .symbol? _ | .size => t

def run (t : SymbolTable σ) (history : List (Operation σ)) : SymbolTable σ := history.foldl step t

theorem run_cons (t : SymbolTable σ) (x : Operation σ) (history : List (Operation σ)) :
    t.run (x :: history) = (t.step x).run history := rfl

theorem run_append (t : SymbolTable σ) (history later : List (Operation σ)) :
    t.run (history ++ later) = (t.run history).run later :=
  List.foldl_append

/-! ## The symbols that are kept -/

omit [Hashable σ] in
/-- of one more symbol at the end, a list without repetitions takes note unless an equal one is there -/
theorem eraseDups_concat (l : List σ) (s : σ) :
    (l ++ [s]).eraseDups = if l.eraseDups.any (s == ·) then l.eraseDups else l.eraseDups ++ [s] := by
  have (before : List σ) : List.eraseDupsBy.loop (· == ·) (l ++ [s]) before =
      if (List.eraseDupsBy.loop (· == ·) l before).any (s == ·) then List.eraseDupsBy.loop (· == ·) l before
      else List.eraseDupsBy.loop (· == ·) l before ++ [s] := by
    induction l generalizing before with
    | nil => cases h : before.any (s == ·) <;> simp [List.eraseDupsBy.loop, h]
    | cons a l ih => cases h : before.any (a == ·) <;> simp only [List.cons_append, List.eraseDupsBy.loop, h, ih]
  exact this []

omit [Hashable σ] in
/-- leaving out the later ones of equal entries leaves an equal one of each -/
theorem exists_mem_eraseDups_iff [EquivBEq σ] (l : List σ) (s : σ) :
    (∃ kept ∈ l.eraseDups, kept == s) ↔ ∃ mentioned ∈ l, mentioned == s := by
  induction l using List.reverseRecOn with
  | nil => simp
  | append_singleton l a ih =>
    simp only [List.mem_append, List.mem_singleton, or_and_right, exists_or, exists_eq_left, ← ih]
    rw [eraseDups_concat]
    split
    · rename_i hany
      obtain ⟨kept, hkept, hsame⟩ := List.any_eq_true.1 hany
      -- what equals the last entry equals the one that is kept for it
      exact ⟨.inl, fun h => h.elim (fun hl => hl) fun ha => ⟨kept, hkept, BEq.trans (BEq.symm hsame) ha⟩⟩
    · simp only [List.mem_append, List.mem_singleton, or_and_right, exists_or, exists_eq_left]

/-- a table after symbols were interned: it keeps them in order, without the later ones of equal symbols, and gives the
number of a kept symbol to all that equal it -/
structure Tracks (t : SymbolTable σ) (seen : List σ) : Prop where
  symbols : t.symbols.toList = seen.eraseDups
  indexed : t.Indexed

theorem tracks_empty : (empty : SymbolTable σ).Tracks [] where
  symbols := rfl
  indexed := indexed_empty

/-- the symbol kept under a number equals another -/
theorem exists_kept_iff : (∃ kept, t.symbol? id = some kept ∧ kept == s) ↔ t.symbol? id == some s := by
  cases t.symbol? id <;> simp

theorem Indexed.exists_id_iff (h : t.Indexed) : (∃ id, t.id? s = some id) ↔ ∃ kept ∈ t.symbols.toList, kept == s := by
  constructor
  · intro hs
    obtain ⟨id, hid⟩ := hs
    obtain ⟨kept, hkept, hsame⟩ := h.exists_symbol hid
    exact ⟨kept, List.mem_of_getElem? (symbol?_eq_some_iff.1 hkept), hsame⟩
  · intro hs
    obtain ⟨kept, hmem, hsame⟩ := hs
    obtain ⟨id, hid⟩ := List.getElem?_of_mem hmem
    exact ⟨id, (h s id).2 ⟨kept, symbol?_eq_some_iff.2 hid, hsame⟩⟩

variable [EquivBEq σ] [LawfulHashable σ]

theorem Tracks.intern (h : t.Tracks seen) (s : σ) : (t.intern s).2.Tracks (seen ++ [s]) := by
  refine ⟨?_, h.indexed.intern s⟩
  rw [eraseDups_concat, ← h.symbols]
  have hany : t.symbols.toList.any (s == ·) = true ↔ ∃ id, t.id? s = some id := by
    rw [h.indexed.exists_id_iff, List.any_eq_true]
    exact exists_congr fun kept => and_congr_right fun _ => by rw [BEq.comm]
  cases hs : t.id? s with
  | some id => rw [intern_of_some hs, if_pos (hany.2 ⟨id, hs⟩)]
  | none =>
    have hnew : ¬t.symbols.toList.any (s == ·) = true := by
      rw [hany, hs]
      simp
    rw [symbols_intern_of_none hs, if_neg hnew, Array.toList_push]

/-! ## One operation, and several -/

theorem Tracks.step (h : t.Tracks seen) (x : Operation σ) : (t.step x).Tracks (seen ++ x.interned?.toList) := by
  cases x with
  | intern s => exact h.intern s
  | _ =>
    show t.Tracks (seen ++ [])
    rwa [List.append_nil]

theorem keeps_step (t : SymbolTable σ) (x : Operation σ) : Keeps t (t.step x) := by
  cases x with
  | intern s => exact keeps_intern t s
  | _ => exact Keeps.refl t

omit [EquivBEq σ] [LawfulHashable σ] in
theorem symbols_isPrefix_step (t : SymbolTable σ) (x : Operation σ) : t.symbols.toList <+: (t.step x).symbols.toList := by
  cases x with
  | intern s =>
    show t.symbols.toList <+: (t.intern s).2.symbols.toList
    cases hs : t.id? s with
    | some id =>
      have hsame : (t.intern s).2 = t := by rw [intern_of_some hs]
      exact hsame.symm ▸ List.prefix_refl _
    | none =>
      rw [symbols_intern_of_none hs, Array.toList_push]
      exact List.prefix_append _ _
  | _ => exact List.prefix_refl _

theorem Tracks.run (h : t.Tracks seen) (history : List (Operation σ)) : (t.run history).Tracks (seen ++ interned history) := by
  induction history generalizing t seen with
  | nil =>
    show t.Tracks (seen ++ [])
    rwa [List.append_nil]
  | cons x history ih =>
    have hsplit : interned (x :: history) = x.interned?.toList ++ interned history := by
      cases x <;> rfl
    rw [run_cons, hsplit, ← List.append_assoc]
    exact ih (h.step x)

/-- what a history leaves behind -/
theorem tracks_run (history : List (Operation σ)) : (empty.run history).Tracks (interned history) :=
  tracks_empty.run history

/-- numbers that were given stay, whatever comes later -/
theorem keeps_run (t : SymbolTable σ) (later : List (Operation σ)) : Keeps t (t.run later) := by
  induction later generalizing t with
  | nil => exact Keeps.refl t
  | cons x later ih => exact (keeps_step t x).trans (ih (t.step x))

omit [EquivBEq σ] [LawfulHashable σ] in
/-- symbols that are kept stay where they are -/
theorem symbols_isPrefix_run (t : SymbolTable σ) (later : List (Operation σ)) :
    t.symbols.toList <+: (t.run later).symbols.toList := by
  induction later generalizing t with
  | nil => exact List.prefix_refl _
  | cons x later ih => exact (symbols_isPrefix_step t x).trans (ih (t.step x))

omit [EquivBEq σ] [LawfulHashable σ] in
theorem symbol?_run (h : t.symbol? id = some s) (later : List (Operation σ)) : (t.run later).symbol? id = some s := by
  obtain ⟨more, hmore⟩ := symbols_isPrefix_run t later
  have hlt : id < t.symbols.toList.length := (List.getElem?_eq_some_iff.1 (symbol?_eq_some_iff.1 h)).1
  rw [symbol?_eq_some_iff, ← hmore, List.getElem?_append_left hlt]
  exact symbol?_eq_some_iff.1 h

/-! ## Numbers -/

omit [LawfulHashable σ] in
/-- the numbers in use are those below the size -/
theorem Indexed.exists_symbol_iff (h : t.Indexed) : (∃ s, t.id? s = some id) ↔ id < t.size := by
  constructor
  · intro hid
    obtain ⟨s, hid⟩ := hid
    obtain ⟨kept, hkept, -⟩ := h.exists_symbol hid
    exact (Array.getElem?_eq_some_iff.1 hkept).1
  · intro hlt
    exact ⟨_, h.id?_of_symbol? (Array.getElem?_eq_getElem hlt)⟩

/-- equal symbols have one number, and others have not -/
theorem Indexed.id?_eq_iff (h : t.Indexed) (hid : t.id? s = some id) (s' : σ) : t.id? s' = some id ↔ s == s' := by
  obtain ⟨kept, hkept, hsame⟩ := h.exists_symbol hid
  constructor
  · intro hid'
    obtain ⟨kept', hkept', hsame'⟩ := h.exists_symbol hid'
    cases hkept.symm.trans hkept'
    exact BEq.trans (BEq.symm hsame) hsame'
  · intro hsame'
    rw [← id?_congr hsame', hid]

/-- **A symbol table after any operations.** It keeps the symbols interned in the order of their first interning, each once;
their numbers are those from zero up to the size, and looking up a number and looking up a symbol undo each other. Whatever
comes later, a number stays with its symbol and goes to no other, nor does a symbol change its number. Interning a symbol that
was not seen gives the size for a number and one symbol more; any other operation leaves the table as it is. -/
theorem numbered_run (history : List (Operation σ)) :
    (empty.run history).symbols.toList = (interned history).eraseDups ∧
    (∀ id, (∃ s, (empty.run history).id? s = some id) ↔ id < (empty.run history).size) ∧
    (∀ s id, (empty.run history).id? s = some id ↔ (empty.run history).symbol? id == some s) ∧
    (∀ s, (∃ id, (empty.run history).id? s = some id) ↔ ∃ seen ∈ interned history, seen == s) ∧
    (∀ s id, (empty.run history).id? s = some id →
      ((empty.run history).intern s).1 = id ∧
      ∀ later s', (empty.run (history ++ later)).id? s' = some id ↔ s == s') ∧
    (∀ id s, (empty.run history).symbol? id = some s → ∀ later, (empty.run (history ++ later)).symbol? id = some s) ∧
    (∀ s, (empty.run history).id? s = none →
      ((empty.run history).intern s).1 = (empty.run history).size ∧
      (empty.run (history ++ [.intern s])).size = (empty.run history).size + 1 ∧
      (empty.run (history ++ [.intern s])).id? s = some (empty.run history).size) ∧
    ∀ x : Operation σ, (∀ s, x = .intern s → ∃ id, (empty.run history).id? s = some id) →
      empty.run (history ++ [x]) = empty.run history := by
  set t : SymbolTable σ := empty.run history with ht
  have htracks : t.Tracks (interned history) := tracks_run history
  have hlater (later : List (Operation σ)) : empty.run (history ++ later) = t.run later := run_append empty history later
  refine ⟨htracks.symbols, fun id => htracks.indexed.exists_symbol_iff, fun s id => ?_, fun s => ?_, fun s id hid => ?_,
    fun id s hs later => ?_, fun s hs => ?_, fun x hx => ?_⟩
  · rw [htracks.indexed s id, exists_kept_iff]
  · rw [htracks.indexed.exists_id_iff, htracks.symbols, exists_mem_eraseDups_iff]
  · refine ⟨by rw [intern_of_some hid], fun later s' => ?_⟩
    rw [hlater]
    exact (htracks.run later).indexed.id?_eq_iff (keeps_run t later s id hid) s'
  · rw [hlater]
    exact symbol?_run hs later
  · have hnumber : (t.intern s).1 = t.size := by simp [SymbolTable.intern, hs]
    rw [hlater]
    show (t.intern s).1 = t.size ∧ (t.intern s).2.size = t.size + 1 ∧ (t.intern s).2.id? s = some t.size
    refine ⟨hnumber, ?_, ?_⟩
    · rw [size, symbols_intern_of_none hs, Array.size_push, size]
    · rw [id?_intern_self, hnumber]
  · rw [hlater]
    cases x with
    | intern s =>
      obtain ⟨id, hid⟩ := hx s rfl
      show (t.intern s).2 = t
      rw [intern_of_some hid]
    | _ => rfl

/-- `b` is seen before `a`, and both again: `b` has number 0 and `a` number 1, now and after whatever comes later -/
theorem numbered_run_sample :
    (empty.run [.intern "b", .id? "a", .intern "a", .symbol? 7, .intern "b"]).symbols.toList = ["b", "a"] ∧
    (empty.run [.intern "b", .id? "a", .intern "a", .symbol? 7, .intern "b"]).id? "a" = some 1 ∧
    ∀ later s, (empty.run ([.intern "b", .id? "a", .intern "a", .symbol? 7, .intern "b"] ++ later)).id? s = some 1 ↔
      "a" == s := by
  obtain ⟨hsymbols, -, hlookup, -, hstays, -⟩ :=
    numbered_run [.intern "b", .id? "a", .intern "a", .symbol? 7, .intern "b"]
  have hkept : (empty.run [.intern "b", .id? "a", .intern "a", .symbol? 7, .intern "b"]).symbols.toList = ["b", "a"] :=
    hsymbols
  have hid : (empty.run [.intern "b", .id? "a", .intern "a", .symbol? 7, .intern "b"]).id? "a" = some 1 := by
    rw [hlookup, ← exists_kept_iff]
    exact ⟨"a", symbol?_eq_some_iff.2 (by rw [hkept]; rfl), BEq.rfl⟩
  exact ⟨hkept, hid, (hstays "a" 1 hid).2⟩

end CfgMembership.SymbolTable
