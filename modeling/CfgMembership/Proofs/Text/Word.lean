/-
Lines put together from words.

`Spells` says how a line is made of words: blanks, a word without blanks that lasts up to a blank or to the end of the
line, and the same again for the rest. `words_eq_iff`: the words found in a line are those that it is made of.
-/
import CfgMembership.Proofs.Text.Blank
import CfgMembership.Text.Word

namespace CfgMembership.Text

/-- a line and the words that it is made of -/
inductive Spells : List Char → List (List Char) → Prop where
  | blanks {gap : List Char} (hgap : ∀ c ∈ gap, isBlank c = true) : Spells gap []
  | word {gap word rest : List Char} {words : List (List Char)} (hgap : ∀ c ∈ gap, isBlank c = true) (hne : word ≠ [])
    (hword : ∀ c ∈ word, isBlank c = false) (hend : ∀ c ∈ rest.head?, isBlank c = true) (hrest : Spells rest words) :
    Spells (gap ++ word ++ rest) (word :: words)

variable {cs gap word rest : List Char} {ws : List (List Char)}

/-! ## One word -/

theorem takeWord_eq_none_iff : takeWord cs = none ↔ ∀ c ∈ cs, isBlank c = true := by
  rw [← List.dropWhile_eq_nil_iff]
  unfold takeWord
  split
  · rename_i hdrop
    exact iff_of_true rfl hdrop
  · rename_i hdrop
    exact iff_of_false (by simp) hdrop

theorem takeWord_append (hgap : ∀ c ∈ gap, isBlank c = true) (hne : word ≠ []) (hword : ∀ c ∈ word, isBlank c = false)
    (hend : ∀ c ∈ rest.head?, isBlank c = true) : takeWord (gap ++ word ++ rest) = some (word, rest) := by
  have hinside : ∀ c ∈ word, (!isBlank c) = true := fun c hc => by simp [hword c hc]
  have hstop : ∀ c ∈ rest.head?, (!isBlank c) = false := fun c hc => by simp [hend c hc]
  have hskip : (gap ++ word ++ rest).dropWhile isBlank = word ++ rest := by
    rw [List.append_assoc]
    refine dropWhile_eq_back hgap fun c hc => ?_
    obtain ⟨first, tail, rfl⟩ := List.exists_cons_of_ne_nil hne
    obtain rfl : first = c := by simpa using hc
    exact hword first List.mem_cons_self
  have hleft : word ++ rest ≠ [] := List.append_ne_nil_of_left_ne_nil hne rest
  simp only [takeWord, hskip, takeWhile_eq_front hinside hstop, dropWhile_eq_back hinside hstop]

theorem exists_of_takeWord_eq_some (h : takeWord cs = some (word, rest)) :
    ∃ gap, (∀ c ∈ gap, isBlank c = true) ∧ word ≠ [] ∧ (∀ c ∈ word, isBlank c = false) ∧
      (∀ c ∈ rest.head?, isBlank c = true) ∧ cs = gap ++ word ++ rest := by
  unfold takeWord at h
  split at h
  · cases h
  · rename_i left hleft
    simp only [Option.some.injEq, Prod.mk.injEq] at h
    obtain ⟨rfl, rfl⟩ := h
    have hcs : cs = cs.takeWhile isBlank ++ cs.dropWhile isBlank := List.takeWhile_append_dropWhile.symm
    refine ⟨cs.takeWhile isBlank, fun c hc => List.mem_takeWhile_imp hc, ?_, ?_, ?_, ?_⟩
    · obtain ⟨c, tail, hc⟩ := List.exists_cons_of_ne_nil hleft
      have hblank : isBlank c = false := head?_dropWhile isBlank cs c (by simp [hc])
      simp [hc, hblank]
    · intro c hc
      simpa using List.mem_takeWhile_imp hc
    · intro c hc
      simpa using head?_dropWhile (!isBlank ·) _ c hc
    · rw [List.append_assoc, List.takeWhile_append_dropWhile]
      exact hcs

/-! ## All words -/

theorem words_of_takeWord_eq_none (h : takeWord cs = none) : words cs = [] := by
  rw [words]
  split
  · rfl
  · simp_all

theorem words_of_takeWord_eq_some (h : takeWord cs = some (word, rest)) : words cs = word :: words rest := by
  rw [words]
  split
  · simp_all
  · simp_all

theorem spells_words (cs : List Char) : Spells cs (words cs) := by
  fun_induction words cs with
  | case1 cs hnone => exact .blanks (takeWord_eq_none_iff.1 hnone)
  | case2 cs word rest hsome ih =>
    obtain ⟨gap, hgap, hne, hword, hend, rfl⟩ := exists_of_takeWord_eq_some hsome
    exact .word hgap hne hword hend ih

theorem Spells.words_eq (h : Spells cs ws) : words cs = ws := by
  induction h with
  | blanks hgap => exact words_of_takeWord_eq_none (takeWord_eq_none_iff.2 hgap)
  | word hgap hne hword hend _ ih => rw [words_of_takeWord_eq_some (takeWord_append hgap hne hword hend), ih]

/-- the words found in a line are those that it is made of -/
theorem words_eq_iff : words cs = ws ↔ Spells cs ws :=
  ⟨fun h => h ▸ spells_words cs, Spells.words_eq⟩

end CfgMembership.Text
