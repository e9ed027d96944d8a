/-
What is left of a text without the blanks at its ends.

`Trims` says when a text is another one without blanks at its ends: what it lacks is blank, and it neither begins nor ends
with a blank itself. `trimChars_eq_iff`: there is one such text, and it is what trimming gives.
-/
import Mathlib.Data.List.TakeWhile
import CfgMembership.Text.Blank

namespace CfgMembership.Text

/-! ## Boundaries -/

section Boundary

variable {α : Type} {p : α → Bool} {front back : List α}

/-- what holds up to a boundary is taken up to there -/
theorem takeWhile_eq_front (hfront : ∀ a ∈ front, p a = true) (hback : ∀ a ∈ back.head?, p a = false) :
    (front ++ back).takeWhile p = front := by
  rw [List.takeWhile_append_of_pos hfront]
  cases back with
  | nil => simp
  | cons a back => simp [hback a rfl]

theorem dropWhile_eq_back (hfront : ∀ a ∈ front, p a = true) (hback : ∀ a ∈ back.head?, p a = false) :
    (front ++ back).dropWhile p = back := by
  rw [List.dropWhile_append_of_pos hfront]
  cases back with
  | nil => rfl
  | cons a back => simp [hback a rfl]

theorem head?_dropWhile (p : α → Bool) (l : List α) : ∀ a ∈ (l.dropWhile p).head?, p a = false := by
  intro a ha
  have hnot := List.head?_dropWhile_not p l
  rw [Option.mem_def.1 ha] at hnot
  exact hnot

end Boundary

/-! ## Trimming -/

/-- characters are the middle of others: blanks stand before and after them, but neither first nor last among them -/
structure Trims (cs middle : List Char) : Prop where
  first : ∀ c ∈ middle.head?, isBlank c = false
  last : ∀ c ∈ middle.getLast?, isBlank c = false
  ends : ∃ before after, (∀ c ∈ before, isBlank c = true) ∧ (∀ c ∈ after, isBlank c = true) ∧
    cs = before ++ middle ++ after

variable {cs middle : List Char}

theorem trims_trimChars (cs : List Char) : Trims cs (trimChars cs) := by
  obtain ⟨after, hafter, hfront⟩ : ∃ after, (∀ c ∈ after, isBlank c = true) ∧
      cs.dropWhile isBlank = trimChars cs ++ after := by
    refine ⟨((cs.dropWhile isBlank).reverse.takeWhile isBlank).reverse, fun c hc => ?_, ?_⟩
    · exact List.mem_takeWhile_imp (List.mem_reverse.1 hc)
    · rw [trimChars, ← List.reverse_append, List.takeWhile_append_dropWhile, List.reverse_reverse]
  refine ⟨fun c hc => ?_, fun c hc => ?_, cs.takeWhile isBlank, after, fun c => List.mem_takeWhile_imp, hafter, ?_⟩
  · refine head?_dropWhile isBlank cs c ?_
    rw [hfront, List.head?_append, Option.mem_def.1 hc]
    rfl
  · rw [trimChars, List.getLast?_reverse] at hc
    exact head?_dropWhile isBlank _ c hc
  · rw [List.append_assoc, ← hfront, List.takeWhile_append_dropWhile]

theorem trimChars_of_blank (h : ∀ c ∈ cs, isBlank c = true) : trimChars cs = [] := by
  rw [trimChars, List.dropWhile_eq_nil_iff.2 h]
  rfl

theorem Trims.trimChars_eq (h : Trims cs middle) : trimChars cs = middle := by
  obtain ⟨hfirst, hlast, before, after, hbefore, hafter, rfl⟩ := h
  by_cases hne : middle = []
  · subst hne
    exact trimChars_of_blank (by simpa [or_imp, forall_and] using ⟨hbefore, hafter⟩)
  · have hhead : ∀ c ∈ (middle ++ after).head?, isBlank c = false := by
      rwa [List.head?_append, Option.or_of_isSome (List.isSome_head?.2 hne)]
    have hback : ∀ c ∈ middle.reverse.head?, isBlank c = false := by rwa [List.head?_reverse]
    have hafter' : ∀ c ∈ after.reverse, isBlank c = true := fun c hc => hafter c (List.mem_reverse.1 hc)
    rw [trimChars, List.append_assoc, dropWhile_eq_back hbefore hhead, List.reverse_append,
      dropWhile_eq_back hafter' hback, List.reverse_reverse]

/-- trimming gives the middle of a text -/
theorem trimChars_eq_iff : trimChars cs = middle ↔ Trims cs middle :=
  ⟨fun h => h ▸ trims_trimChars cs, Trims.trimChars_eq⟩

theorem trim_eq_iff {text word : String} : trim text = word ↔ Trims text.toList word.toList := by
  rw [← trimChars_eq_iff, trim, ← String.toList_inj, String.toList_ofList]

/-- nothing is left of blanks only -/
theorem trimChars_eq_nil_iff : trimChars cs = [] ↔ ∀ c ∈ cs, isBlank c = true := by
  refine ⟨fun h c hc => ?_, trimChars_of_blank⟩
  obtain ⟨-, -, before, after, hbefore, hafter, rfl⟩ := trimChars_eq_iff.1 h
  rw [List.append_nil, List.mem_append] at hc
  exact hc.elim (hbefore c) (hafter c)

end CfgMembership.Text
